import Choreography.AnimatedWidget
import Choreography.Proofs.Operations

/-! # Cached timelines

Whether a widget is up to date is known in two places: the coordinator has a set of such widgets,
and a widget has its timeline. A timeline is always the one of the current program and sizes. But a
change in place can drop it and leave the widget in the set, and then no pass brings it back. -/
namespace Choreography
namespace AnimatedWidget

inductive Edit where
  | setProgram (program : Program)
  | resize (widget container : Size)
  | invalidate

def Edit.apply : Edit → AnimatedWidget → AnimatedWidget
  | .setProgram program, w => w.setProgram program
  | .resize widget container, w => w.resize widget container
  | .invalidate, w => w.invalidate

/-- A widget made from a performance by edits and computations. -/
inductive Made : AnimatedWidget → Prop
  | of (p : Performance) : Made (of p)
  | edit {w : AnimatedWidget} (h : Made w) (e : Edit) : Made (e.apply w)
  | compute {w : AnimatedWidget} (h : Made w) (ticks : Table Nat) :
      Made (w.compute ticks).value.1

def Coherent (w : AnimatedWidget) : Prop :=
  ∀ t, w.timeline = some t → t = (w.performance.perform none).timeline

/-- An edit leaves a widget as it is or without a timeline. -/
theorem Edit.apply_cases (e : Edit) (w : AnimatedWidget) :
    e.apply w = w ∨ (e.apply w).timeline = none := by
  cases e with
  | setProgram program => exact .inr rfl
  | resize widget container =>
    simp only [Edit.apply, AnimatedWidget.resize]
    split
    · exact .inl rfl
    · exact .inr rfl
  | invalidate => exact .inr rfl

theorem Edit.timeline_apply_of_none (e : Edit) {w : AnimatedWidget} (h : w.timeline = none) :
    (e.apply w).timeline = none := by
  rcases e.apply_cases w with hsame | hnone
  · rw [hsame, h]
  · exact hnone

theorem Made.coherent {w : AnimatedWidget} (h : Made w) : w.Coherent := by
  induction h with
  | of p => exact fun t ht => by cases ht
  | @edit w _ e ih =>
    intro t ht
    rcases e.apply_cases w with hsame | hnone
    · rw [hsame] at ht ⊢
      exact ih t ht
    · rw [hnone] at ht
      cases ht
  | compute _ ticks _ => exact fun t ht => (Option.some.inj ht).symm

end AnimatedWidget

namespace Coordinator
variable {ops : List (Operation AnimatedWidget)} {op : Operation AnimatedWidget}
  {c : Coordinator AnimatedWidget} {id : String} {w : AnimatedWidget}

/-- Widgets that are registered have been made as widgets are, and changes are edits. -/
def Genuine : Operation AnimatedWidget → Prop
  | .register _ w => w.Made
  | .registerWidget _ w => w.Made
  | .update _ w => w.Made
  | .change _ f => ∃ e : AnimatedWidget.Edit, f = e.apply
  | _ => True

theorem genuine_concat (hops : ∀ x ∈ ops, Genuine x) (hop : Genuine op) :
    ∀ x ∈ ops ++ [op], Genuine x := by
  intro x hx
  rcases List.mem_append.1 hx with hx | hx
  · exact hops x hx
  · exact List.mem_singleton.1 hx ▸ hop

def Bare (c : Coordinator AnimatedWidget) (id : String) : Prop :=
  c.isResolved id = true ∧ ∃ w, c.widgets.find? id = some w ∧ w.timeline = none

/-- The operation is an edit that leaves a widget that is up to date without a timeline. -/
def Drops (c : Coordinator AnimatedWidget) (id : String) (op : Operation AnimatedWidget) : Prop :=
  ∃ f, op = .change id f ∧ c.isResolved id = true ∧
    ∃ w, c.widgets.find? id = some w ∧ (f w).timeline = none

/-- An edit has left a widget without a timeline that was up to date, and it has counted as up to
date ever since. -/
def Dropped (c : Coordinator AnimatedWidget) (id : String) (ops : List (Operation AnimatedWidget)) :
    Prop :=
  Since (fun before op => (c.operateAll before).Drops id op)
    (fun before op => (c.operateAll (before ++ [op])).isResolved id = false) ops

theorem dropped_concat : c.Dropped id (ops ++ [op]) ↔ (c.operateAll ops).Drops id op ∨
    (c.Dropped id ops ∧ (c.operateAll (ops ++ [op])).isResolved id = true) := by
  rw [← Bool.not_eq_false ((c.operateAll (ops ++ [op])).isResolved id)]
  exact since_concat

/-! ### Steps -/

theorem made_operate (hop : Genuine op) (h : ∀ id w, c.widgets.find? id = some w → w.Made)
    (hw : (c.operate op).widgets.find? id = some w) : w.Made := by
  cases op with
  | register other v =>
    rw [operate, find?_widgets_register] at hw
    split at hw
    · cases hw
      exact hop
    · exact h id w hw
  | registerWidget other v =>
    replace hw : (c.widgets.insert other v).find? id = some w := hw
    rw [Table.find?_insert] at hw
    split at hw
    · cases hw
      exact hop
    · exact h id w hw
  | update other v =>
    cases hother : c.widgets.contains other with
    | false =>
      rw [operate_update_of_not_contains hother] at hw
      exact h id w hw
    | true =>
      rw [find?_widgets_update hother] at hw
      split at hw
      · cases hw
        exact hop
      · exact h id w hw
  | invalidate other => exact h id w hw
  | change other f =>
    obtain ⟨e, rfl⟩ := hop
    rw [operate, find?_widgets_change] at hw
    split at hw
    · obtain ⟨v, hv, rfl⟩ := Option.map_eq_some_iff.1 hw
      exact (h other v hv).edit e
    · exact h id w hw
  | clear => cases hw
  | resolve =>
    obtain ⟨ticks, hticks⟩ := find?_widgets_resolve c id
    obtain ⟨v, hv, rfl⟩ := Option.map_eq_some_iff.1 (hticks.symm.trans hw)
    split
    · exact (h id v hv).compute ticks
    · exact h id v hv

/-- What is up to date after an operation other than a pass was so before, and only a change in
place has touched it. -/
theorem untouched (hpass : op ≠ .resolve) (hchange : ∀ f, op ≠ .change id f)
    (hres : (c.operate op).isResolved id = true) :
    c.isResolved id = true ∧ (c.operate op).widgets.find? id = c.widgets.find? id := by
  cases op with
  | register other v =>
    obtain ⟨hne, hres⟩ := (isResolved_register_iff c other v id).1 hres
    exact ⟨hres, (find?_widgets_register c other v id).trans (if_neg hne)⟩
  | registerWidget other v =>
    obtain ⟨hne, hres⟩ := (Table.contains_erase ..).1 hres
    exact ⟨hres, Table.find?_insert_ne _ _ hne⟩
  | update other v =>
    cases hother : c.widgets.contains other with
    | false =>
      rw [operate_update_of_not_contains hother] at hres ⊢
      exact ⟨hres, rfl⟩
    | true =>
      obtain ⟨hne, hres⟩ := isResolved_of_update hother hres
      exact ⟨hres, (find?_widgets_update hother v id).trans (if_neg hne)⟩
  | invalidate other => exact ⟨isResolved_of_invalidate hres, rfl⟩
  | change other f =>
    have hne : id ≠ other := fun heq => hchange f (heq ▸ rfl)
    rw [operate, isResolved_change] at hres
    exact ⟨hres, (find?_widgets_change c other f id).trans (if_neg hne)⟩
  | clear => cases hres
  | resolve => exact absurd rfl hpass

theorem bare_change {f : AnimatedWidget → AnimatedWidget} :
    (c.change id f).Bare id ↔ c.Drops id (.change id f) := by
  simp only [Bare, Drops, isResolved_change, find?_widgets_change, if_true]
  constructor
  · rintro ⟨hres, w, hw, hnone⟩
    obtain ⟨v, hv, rfl⟩ := Option.map_eq_some_iff.1 hw
    exact ⟨f, rfl, hres, v, hv, hnone⟩
  · rintro ⟨g, heq, hres, v, hv, hnone⟩
    cases heq
    exact ⟨hres, f v, Option.map_eq_some_iff.2 ⟨v, hv, rfl⟩, hnone⟩

/-- A pass generates the timelines of the widgets that it computes and leaves the others alone. -/
theorem bare_resolve : c.resolve.value.1.Bare id ↔ c.Bare id := by
  obtain ⟨given, hsound, -⟩ := exists_sound_resolve c
  have hresolved := hsound.tracks.resolved id
  have hwidget := hsound.tracks.handles id
  constructor
  · rintro ⟨hres, w, hw, hnone⟩
    obtain ⟨v, hv, rfl⟩ := Option.map_eq_some_iff.1 (hwidget.symm.trans hw)
    by_cases hcomputed : id ∈ c.resolve.value.2.computed
    · rw [if_pos hcomputed] at hnone
      cases hnone
    · rw [if_neg hcomputed] at hnone
      exact ⟨(hresolved.1 hres).resolve_right hcomputed, v, hv, hnone⟩
  · rintro ⟨hres, w, hw, hnone⟩
    have hnot : id ∉ c.resolve.value.2.computed := by
      intro hcomputed
      have hout := (mem_unresolved.1 (hsound.tracks.outdated id hcomputed)).2
      rw [hres] at hout
      cases hout
    refine ⟨hresolved.2 (.inl hres), w, ?_, hnone⟩
    rw [hwidget, hw, Option.map_some, if_neg hnot]

/-- After an operation those widgets are bare that it drops, and those that were before and still
count as up to date. -/
theorem bare_operate (hop : Genuine op) : (c.operate op).Bare id ↔
    c.Drops id op ∨ (c.Bare id ∧ (c.operate op).isResolved id = true) := by
  by_cases hpass : op = .resolve
  · subst hpass
    refine bare_resolve.trans ⟨fun hbare => .inr ⟨hbare, (bare_resolve.2 hbare).1⟩, ?_⟩
    rintro (⟨f, heq, -⟩ | ⟨hbare, -⟩)
    · cases heq
    · exact hbare
  by_cases hchange : ∃ f, op = .change id f
  · obtain ⟨f, rfl⟩ := hchange
    obtain ⟨e, rfl⟩ := hop
    refine bare_change.trans ⟨.inl, ?_⟩
    rintro (hdrops | ⟨⟨hres, w, hw, hnone⟩, -⟩)
    · exact hdrops
    · exact ⟨e.apply, rfl, hres, w, hw, e.timeline_apply_of_none hnone⟩
  · rw [not_exists] at hchange
    constructor
    · rintro ⟨hres, w, hw, hnone⟩
      obtain ⟨hbefore, hsame⟩ := untouched hpass hchange hres
      exact .inr ⟨⟨hbefore, w, hsame.symm.trans hw, hnone⟩, hres⟩
    · rintro (⟨f, heq, -⟩ | ⟨⟨-, w, hw, hnone⟩, hres⟩)
      · exact absurd heq (hchange f)
      · exact ⟨hres, w, (untouched hpass hchange hres).2.trans hw, hnone⟩

/-! ### Histories -/

theorem made_operateAll (settings : CoordinatorSettings) (hops : ∀ op ∈ ops, Genuine op)
    (hw : ((empty settings).operateAll ops).widgets.find? id = some w) : w.Made := by
  induction ops using List.reverseRecOn generalizing id w with
  | nil => cases hw
  | append_singleton ops op ih =>
    rw [operateAll_concat] at hw
    have hearlier : ∀ x ∈ ops, Genuine x := fun x hx => hops x (List.mem_append_left _ hx)
    exact made_operate (hops op List.mem_concat_self) (fun _ _ hw => ih hearlier hw) hw

theorem bare_iff_dropped (settings : CoordinatorSettings) (hops : ∀ op ∈ ops, Genuine op) :
    ((empty settings).operateAll ops).Bare id ↔ (empty settings).Dropped id ops := by
  induction ops using List.reverseRecOn with
  | nil =>
    refine ⟨?_, fun h => absurd h not_since_nil⟩
    rintro ⟨hres, -⟩
    cases hres
  | append_singleton ops op ih =>
    have hearlier : ∀ x ∈ ops, Genuine x := fun x hx => hops x (List.mem_append_left _ hx)
    rw [dropped_concat, ← ih hearlier, operateAll_concat]
    exact bare_operate (hops op List.mem_concat_self)

/-- After a last pass every timeline is the one of the program and the sizes that the widget has
now. A registered widget has one exactly if it has not been dropped: no edit took it from the widget
while it was up to date, or the widget has been out of date since then. -/
theorem playable_iff_not_dropped (settings : CoordinatorSettings) (hops : ∀ op ∈ ops, Genuine op)
    (hc : (empty settings).operateAll (ops ++ [.resolve]) = c)
    (hw : c.widgets.find? id = some w) :
    c.isResolved id = true ∧
    (∀ t, w.timeline = some t → t = (w.performance.perform none).timeline) ∧
    ((∃ t, w.timeline = some t) ↔ ¬ (empty settings).Dropped id ops) := by
  subst hc
  have hall : ∀ op ∈ ops ++ [.resolve], Genuine op := genuine_concat hops trivial
  have hmade := made_operateAll settings hall hw
  rw [operateAll_concat] at hw ⊢
  have hres := isResolved_resolve ((Table.contains_iff ..).2 ⟨w, hw⟩)
  refine ⟨hres, hmade.coherent, ?_⟩
  rw [← bare_iff_dropped settings hops, ← bare_resolve]
  constructor
  · rintro ⟨t, ht⟩ ⟨-, v, hv, hnone⟩
    cases hv.symm.trans hw
    rw [ht] at hnone
    cases hnone
  · intro hnot
    refine Option.ne_none_iff_exists'.1 fun hnone => hnot ⟨hres, w, hw, hnone⟩

def rest (ticks : Int64) : Program := .ofBlock [.pause (.int ticks)]

def resting : AnimatedWidget :=
  .of { program := rest 1, settings := {}, widget := ⟨1, 1⟩, container := ⟨9, 9⟩
        start := .plain 0 0, eventTicks := ∅, source := fun _ => none }

def revision : List (Operation AnimatedWidget) :=
  [.register "a" resting, .resolve, .change "a" (AnimatedWidget.Edit.setProgram (rest 2)).apply]

theorem genuine_revision : ∀ op ∈ revision, Genuine op := by
  intro op hop
  simp only [revision, List.mem_cons, List.not_mem_nil, or_false] at hop
  rcases hop with rfl | rfl | rfl
  · exact .of _
  · trivial
  · exact ⟨_, rfl⟩

/-- The new program is played if the coordinator is told that the widget is out of date. -/
theorem playable_iff_not_dropped_revision :
    ∃ w, ((empty {}).operateAll ((revision ++ [.invalidate "a"]) ++ [.resolve])).widgets.find? "a" =
        some w ∧ ∃ t, w.timeline = some t ∧ t = (w.performance.perform none).timeline := by
  have hops : ∀ op ∈ revision ++ [.invalidate "a"], Genuine op :=
    genuine_concat genuine_revision trivial
  obtain ⟨w, hw⟩ := (Table.contains_iff ((empty {}).operateAll
    ((revision ++ [.invalidate "a"]) ++ [.resolve])).widgets "a").1 (by decide)
  obtain ⟨-, hcoherent, hplayable⟩ := playable_iff_not_dropped {} hops rfl hw
  have hnot : ¬ (empty {}).Dropped "a" (revision ++ [.invalidate "a"]) := fun hdropped => by
    have hres := ((bare_iff_dropped {} hops).2 hdropped).1
    have hout : ((empty {}).operateAll (revision ++ [.invalidate "a"])).isResolved "a" = false := by
      decide
    rw [hout] at hres
    cases hres
  obtain ⟨t, ht⟩ := hplayable.2 hnot
  exact ⟨w, hw, t, ht, hcoherent t ht⟩

/-- Otherwise the widget stays without a timeline. -/
theorem unplayable_revision : (∀ op ∈ revision ++ [.resolve], Genuine op) ∧
    ∃ w, ((empty {}).operateAll (revision ++ [.resolve])).widgets.find? "a" = some w ∧
      w.timeline = none :=
  ⟨genuine_concat genuine_revision trivial, _, rfl, rfl⟩

end Coordinator
end Choreography
