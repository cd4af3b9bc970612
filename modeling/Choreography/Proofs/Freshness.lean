import Choreography.Proofs.FinalTicks

/-! # What widgets have heard

Widgets are registered and passes are made in any order. A widget is computed by the first pass
after its registration and not again, so it has heard of an event of another widget exactly if that
one was not registered later than that pass. A pass whose budget wraps around may force widgets, which
then hear an estimate. -/
namespace Choreography

inductive Action (H : Type) where
  | register (id : String) (w : H)
  | resolve

def Action.entry? {H : Type} : Action H → Option (String × H)
  | .register id w => some (id, w)
  | .resolve => none

namespace Coordinator
variable {H : Type}

def registrations (actions : List (Action H)) : List (String × H) :=
  actions.filterMap Action.entry?

/-- A pass has been made since a widget was registered. -/
def ComputedBy (actions : List (Action H)) (id : String) : Prop :=
  ∃ earlier w, earlier ++ [.resolve] <+: actions ∧ (id, w) ∈ registrations earlier

/-- A widget was registered when another one had been computed. -/
def Overlooked (actions : List (Action H)) (id other : String) : Prop :=
  ∃ earlier w, earlier ++ [.register other w] <+: actions ∧ ComputedBy earlier id

/-! ### Histories grow -/

section
variable {actions : List (Action H)} {id other : String} {w : H}

theorem registrations_register (actions : List (Action H)) (id : String) (w : H) :
    registrations (actions ++ [.register id w]) = registrations actions ++ [(id, w)] := by
  simp [registrations, Action.entry?]

theorem registrations_resolve (actions : List (Action H)) :
    registrations (actions ++ [.resolve]) = registrations actions := by
  simp [registrations, Action.entry?]

theorem registrations_sublist {earlier : List (Action H)} (h : earlier <+: actions) :
    (registrations earlier).Sublist (registrations actions) := h.sublist.filterMap _

theorem ComputedBy.mono {earlier : List (Action H)} (h : ComputedBy earlier id)
    (hinitial : earlier <+: actions) : ComputedBy actions id := by
  obtain ⟨first, w, hfirst, hmem⟩ := h
  exact ⟨first, w, hfirst.trans hinitial, hmem⟩

theorem ComputedBy.registered (h : ComputedBy actions id) :
    ∃ w, (id, w) ∈ registrations actions := by
  obtain ⟨earlier, w, hinitial, hmem⟩ := h
  have hsub := registrations_sublist ((List.prefix_append earlier _).trans hinitial)
  exact ⟨w, hsub.subset hmem⟩

theorem computedBy_register : ComputedBy (actions ++ [.register other w]) id ↔
    ComputedBy actions id := by
  refine ⟨fun h => ?_, fun h => h.mono (List.prefix_append _ _)⟩
  obtain ⟨earlier, x, hinitial, hmem⟩ := h
  rcases initial_concat_cases hinitial with ⟨-, hlast⟩ | hinitial
  · cases hlast
  · exact ⟨earlier, x, hinitial, hmem⟩

theorem computedBy_resolve : ComputedBy (actions ++ [.resolve]) id ↔
    ∃ w, (id, w) ∈ registrations actions := by
  constructor
  · intro h
    have hregistered := h.registered
    rwa [registrations_resolve] at hregistered
  · rintro ⟨w, hmem⟩
    exact ⟨actions, w, List.prefix_refl _, hmem⟩

theorem Overlooked.computedBy (h : Overlooked actions id other) : ComputedBy actions id := by
  obtain ⟨earlier, w, hinitial, hcomputed⟩ := h
  exact hcomputed.mono ((List.prefix_append earlier _).trans hinitial)

theorem overlooked_register {last : String} :
    Overlooked (actions ++ [.register last w]) id other ↔
      Overlooked actions id other ∨ (other = last ∧ ComputedBy actions id) := by
  constructor
  · rintro ⟨earlier, x, hinitial, hcomputed⟩
    rcases initial_concat_cases hinitial with ⟨rfl, hlast⟩ | hinitial
    · cases hlast
      exact .inr ⟨rfl, hcomputed⟩
    · exact .inl ⟨earlier, x, hinitial, hcomputed⟩
  · rintro (⟨earlier, x, hinitial, hcomputed⟩ | ⟨rfl, hcomputed⟩)
    · exact ⟨earlier, x, hinitial.trans (List.prefix_append _ _), hcomputed⟩
    · exact ⟨actions, w, List.prefix_refl _, hcomputed⟩

theorem overlooked_resolve :
    Overlooked (actions ++ [.resolve]) id other ↔ Overlooked actions id other := by
  constructor
  · rintro ⟨earlier, x, hinitial, hcomputed⟩
    rcases initial_concat_cases hinitial with ⟨-, hlast⟩ | hinitial
    · cases hlast
    · exact ⟨earlier, x, hinitial, hcomputed⟩
  · rintro ⟨earlier, x, hinitial, hcomputed⟩
    exact ⟨earlier, x, hinitial.trans (List.prefix_append _ _), hcomputed⟩

/-- A widget that no pass has computed yet was registered after those that one has. -/
theorem overlooked_of_not_computedBy (hid : ComputedBy actions id)
    (hother : (other, w) ∈ registrations actions) (hnot : ¬ ComputedBy actions other) :
    Overlooked actions id other := by
  induction actions using List.reverseRecOn with
  | nil => cases hother
  | append_singleton actions action ih =>
    cases action with
    | register last x =>
      rw [computedBy_register] at hid hnot
      rw [overlooked_register]
      rw [registrations_register] at hother
      rcases List.mem_append.1 hother with hmem | hlast
      · exact .inl (ih hid hmem hnot)
      · cases List.mem_singleton.1 hlast
        exact .inr ⟨rfl, hid⟩
    | resolve =>
      rw [registrations_resolve] at hother
      exact absurd (computedBy_resolve.2 ⟨w, hother⟩) hnot

end

variable [Handle H]

def perform (c : Coordinator H) : Action H → Coordinator H
  | .register id w => (c.register id w).value
  | .resolve => c.resolve.value.1

def performAll (c : Coordinator H) (actions : List (Action H)) : Coordinator H :=
  actions.foldl perform c

theorem performAll_concat (c : Coordinator H) (actions : List (Action H)) (action : Action H) :
    c.performAll (actions ++ [action]) = (c.performAll actions).perform action := by
  rw [performAll, List.foldl_append]
  rfl

def givenBy (c : Coordinator H) (id : String) : Action H → Option (Table Nat)
  | .register _ _ => none
  | .resolve =>
      let computed := c.resolve.value.2.computed
      if id ∈ computed then some (c.afterEach (computed.takeWhile (· ≠ id))).ticks else none

/-- The ticks that the last computation of a widget was given. -/
def lastGiven (c : Coordinator H) (id : String) : List (Action H) → Option (Table Nat)
  | [] => none
  | action :: rest => (lastGiven (c.perform action) id rest).or (c.givenBy id action)

theorem lastGiven_concat (c : Coordinator H) (id : String) (actions : List (Action H))
    (action : Action H) :
    c.lastGiven id (actions ++ [action]) =
      ((c.performAll actions).givenBy id action).or (c.lastGiven id actions) := by
  induction actions generalizing c with
  | nil => simp [lastGiven, performAll]
  | cons first rest ih =>
    rw [List.cons_append, lastGiven, lastGiven, ih, Option.or_assoc]
    rfl

theorem givenBy_resolve {c : Coordinator H} {before : List String} {id : String}
    (h : before ++ [id] <+: c.resolve.value.2.computed) :
    c.givenBy id .resolve = some (c.afterEach before).ticks := by
  have hbefore : c.resolve.value.2.computed.takeWhile (· ≠ id) = before := by
    have hfresh : ∀ x ∈ before, decide (x ≠ id) = true := by
      rintro x hx
      refine decide_eq_true ?_
      rintro rfl
      exact (nodup_concat (nodup_of_initial h)).2 hx
    obtain ⟨after, hafter⟩ := h
    rw [← hafter, List.append_assoc, List.takeWhile_append_of_pos hfresh]
    simp
  simp only [givenBy, if_pos (mem_of_initial h), hbefore]

theorem givenBy_resolve_of_not_mem {c : Coordinator H} {id : String}
    (h : id ∉ c.resolve.value.2.computed) : c.givenBy id .resolve = none := if_neg h

def Expects (entries : List (String × H)) (id other : String) : Prop :=
  ∃ w wo event, (id, w) ∈ entries ∧ (other, wo) ∈ entries ∧ other ≠ id ∧
    (Handle.waitingFor w).value.contains event = true ∧ event ∈ declares wo

/-- Widgets with different names and different events, each of which announces only what it
declares, and none of which waits for itself, directly or through others. -/
structure Consistent (entries : List (String × H)) : Prop where
  nodup : (entries.map Prod.fst).Nodup
  owned : ∀ x ∈ entries, ∀ y ∈ entries, ∀ event, event ∈ declares x.2 → event ∈ declares y.2 → x = y
  found : ∀ x ∈ entries, ∀ ticks, ∀ e ∈ (Handle.compute x.2 ticks).value.2, e.name ∈ declares x.2
  acyclic : ∀ id, ¬ Relation.TransGen (Expects entries) id id

theorem Consistent.sublist {entries entries' : List (String × H)} (h : Consistent entries)
    (hsub : entries'.Sublist entries) : Consistent entries' where
  nodup := h.nodup.sublist (hsub.map _)
  owned x hx y hy := h.owned x (hsub.subset hx) y (hsub.subset hy)
  found x hx := h.found x (hsub.subset hx)
  acyclic := by
    intro id hcycle
    refine h.acyclic id (Relation.TransGen.mono (fun a b hab => ?_) _ _ hcycle)
    obtain ⟨w, wo, event, hw, hwo, hrest⟩ := hab
    exact ⟨w, wo, event, hsub.subset hw, hsub.subset hwo, hrest⟩

/-- A new name is not among the old ones. -/
theorem Consistent.fresh {entries : List (String × H)} {id : String} {w : H}
    (h : Consistent (entries ++ [(id, w)])) (x : H) : (id, x) ∉ entries := by
  intro hmem
  have hnodup := h.nodup
  rw [List.map_append, List.nodup_append] at hnodup
  exact hnodup.2.2 id (List.mem_map_of_mem hmem) id (List.mem_singleton_self _) rfl

theorem waitsOf_resolve (c : Coordinator H) (id : String) :
    c.resolve.value.1.waitsOf id = c.waitsOf id := by
  obtain ⟨_, hsequenced⟩ := exists_sequenced_resolve c
  exact congrArg (fun waits : Table (Table Unit) => (waits.find? id).getD ∅)
    hsequenced.sound.tracks.waits

/-- What a coordinator knows after a history, and which ticks its widgets were given last; these are
the final ones on the condition that no pass has forced a widget. -/
structure Reflects (unforced : Prop) (given : String → Option (Table Nat))
    (actions : List (Action H)) (c : Coordinator H) : Prop where
  registered : ∀ id, c.widgets.contains id = true ↔ ∃ w, (id, w) ∈ registrations actions
  computed : ∀ id, c.isResolved id = true ↔ ComputedBy actions id
  owner : ∀ event owner, c.eventOwner event = some owner ↔
    ∃ w, (owner, w) ∈ registrations actions ∧ event ∈ declares w
  waits : ∀ id event, (c.waitsOf id).contains event = true ↔
    ∃ w, (id, w) ∈ registrations actions ∧ (Handle.waitingFor w).value.contains event = true
  untouched : ∀ id w, (id, w) ∈ registrations actions → ¬ ComputedBy actions id →
    c.widgets.find? id = some w
  handles : ∀ id w, (id, w) ∈ registrations actions → ComputedBy actions id →
    ∃ ticks, given id = some ticks ∧ c.widgets.find? id = some (Handle.compute w ticks).value.1
  heard : unforced → ∀ id ticks, ComputedBy actions id → given id = some ticks →
    ∀ event other, (c.waitsOf id).contains event = true → c.eventOwner event = some other →
      other ≠ id → ¬ Overlooked actions id other → ticks.find? event = c.eventTick event
  unheard : ∀ id ticks, ComputedBy actions id → given id = some ticks →
    ∀ event, (∀ other, c.eventOwner event = some other → Overlooked actions id other) →
      ticks.find? event = none

namespace Reflects
variable {unforced : Prop} {given : String → Option (Table Nat)} {actions : List (Action H)}
  {c : Coordinator H}

theorem empty (given : String → Option (Table Nat)) (settings : CoordinatorSettings) :
    Reflects unforced given [] (empty settings : Coordinator H) := by
  have hnone : ∀ id, ¬ ComputedBy ([] : List (Action H)) id := by
    intro id h
    obtain ⟨w, hw⟩ := h.registered
    cases hw
  refine ⟨fun id => ?_, fun id => ?_, fun event owner => ?_, fun id event => ?_, ?_, ?_, ?_, ?_⟩
  · exact ⟨fun h => (by cases h), fun ⟨_, h⟩ => (by cases h)⟩
  · exact ⟨fun h => (by cases h), fun h => absurd h (hnone id)⟩
  · exact ⟨fun h => (by cases h), fun ⟨_, h, _⟩ => (by cases h)⟩
  · exact ⟨fun h => (by cases h), fun ⟨_, h, _⟩ => (by cases h)⟩
  · exact fun _ _ h => by cases h
  · exact fun _ _ h => by cases h
  · exact fun _ id _ h => absurd h (hnone id)
  · exact fun id _ h => absurd h (hnone id)

section
variable {last : String} {wl : H}

theorem owner_register (h : Reflects unforced given actions c)
    (hc : Consistent (registrations actions ++ [(last, wl)])) (event owner : String) :
    (c.register last wl).value.eventOwner event = some owner ↔
      ∃ w, (owner, w) ∈ registrations actions ++ [(last, wl)] ∧ event ∈ declares w := by
  have hlast : (last, wl) ∈ registrations actions ++ [(last, wl)] := List.mem_concat_self
  rw [eventOwner_register]
  split
  · rename_i hdeclares
    constructor
    · intro howner
      cases howner
      exact ⟨wl, hlast, hdeclares⟩
    · rintro ⟨w, hmem, hw⟩
      cases hc.owned _ hmem _ hlast event hw hdeclares
      rfl
  · rename_i hdeclares
    rw [h.owner]
    constructor
    · rintro ⟨w, hmem, hw⟩
      exact ⟨w, List.mem_append_left _ hmem, hw⟩
    · rintro ⟨w, hmem, hw⟩
      rcases List.mem_append.1 hmem with hmem | hmem
      · exact ⟨w, hmem, hw⟩
      · cases List.mem_singleton.1 hmem
        exact absurd hw hdeclares

/-- An event that had an owner before a registration keeps it. -/
theorem owner_kept_register (h : Reflects unforced given actions c)
    (hc : Consistent (registrations actions ++ [(last, wl)])) {event other : String}
    (ho : c.eventOwner event = some other) :
    other ≠ last ∧ (c.register last wl).value.eventOwner event = some other := by
  obtain ⟨w, hmem, hw⟩ := (h.owner event other).1 ho
  refine ⟨?_, (h.owner_register hc event other).2 ⟨w, List.mem_append_left _ hmem, hw⟩⟩
  rintro rfl
  exact hc.fresh w hmem

/-- A registration sets up the new widget and leaves all others as they are. -/
theorem register (h : Reflects unforced given actions c)
    (hc : Consistent (registrations actions ++ [(last, wl)])) :
    Reflects unforced given (actions ++ [.register last wl]) (c.register last wl).value := by
  have hnew : ¬ ComputedBy actions last := by
    intro hcomputed
    obtain ⟨w, hw⟩ := hcomputed.registered
    exact hc.fresh w hw
  have hne : ∀ {id}, ComputedBy actions id → id ≠ last := by
    rintro _ hcomputed rfl
    exact hnew hcomputed
  refine ⟨fun id => ?_, fun id => ?_, ?_, fun id event => ?_, ?_, ?_, ?_, ?_⟩
  · rw [registrations_register, Table.contains_iff]
    simp only [find?_widgets_register, List.mem_append, List.mem_singleton, Prod.mk.injEq]
    have hold := h.registered id
    rw [Table.contains_iff] at hold
    by_cases hid : id = last
    · simp [hid]
    · simp [hid, hold]
  · rw [isResolved_register_iff, computedBy_register, h.computed]
    exact ⟨fun hres => hres.2, fun hres => ⟨hne hres, hres⟩⟩
  · rw [registrations_register]
    exact h.owner_register hc
  · rw [waitsOf_register, h.waits, registrations_register]
    simp only [List.mem_append, List.mem_singleton, Prod.mk.injEq]
    constructor
    · rintro (⟨rfl, hwait⟩ | ⟨w, hmem, hwait⟩)
      · exact ⟨wl, .inr ⟨rfl, rfl⟩, hwait⟩
      · exact ⟨w, .inl hmem, hwait⟩
    · rintro ⟨w, hmem | ⟨rfl, rfl⟩, hwait⟩
      · exact .inr ⟨w, hmem, hwait⟩
      · exact .inl ⟨rfl, hwait⟩
  · intro id w hmem hcomputed
    rw [computedBy_register] at hcomputed
    rw [registrations_register] at hmem
    rw [find?_widgets_register]
    rcases List.mem_append.1 hmem with hold | hlast
    · have hid : id ≠ last := by
        rintro rfl
        exact hc.fresh w hold
      rw [if_neg hid]
      exact h.untouched id w hold hcomputed
    · cases List.mem_singleton.1 hlast
      rw [if_pos rfl]
  · intro id w hmem hcomputed
    rw [computedBy_register] at hcomputed
    rw [registrations_register] at hmem
    rw [find?_widgets_register, if_neg (hne hcomputed)]
    rcases List.mem_append.1 hmem with hold | hlast
    · exact h.handles id w hold hcomputed
    · cases List.mem_singleton.1 hlast
      exact absurd rfl (hne hcomputed)
  · intro hunforced id ticks hcomputed hticks event other hwait ho hother hnot
    rw [computedBy_register] at hcomputed
    rw [overlooked_register, not_or] at hnot
    -- the new widget has come too late for those that have been computed
    have hlate : other ≠ last := fun heq => hnot.2 ⟨heq, hcomputed⟩
    have hdeclares : event ∉ declares wl := by
      intro hdeclares
      rw [eventOwner_register, if_pos hdeclares] at ho
      exact hlate (Option.some.inj ho).symm
    rw [eventOwner_register, if_neg hdeclares] at ho
    rw [waitsOf_register] at hwait
    have hwait' := hwait.resolve_left fun hid => hne hcomputed hid.1
    rw [eventTick_register c last hdeclares]
    exact h.heard hunforced id ticks hcomputed hticks event other hwait' ho hother hnot.1
  · intro id ticks hcomputed hticks event hall
    rw [computedBy_register] at hcomputed
    refine h.unheard id ticks hcomputed hticks event fun other ho => ?_
    obtain ⟨hother, ho'⟩ := h.owner_kept_register hc ho
    exact (overlooked_register.1 (hall other ho')).resolve_right fun hlast => hother hlast.1

end

theorem familiar (h : Reflects unforced given actions c) (hc : Consistent (registrations actions)) :
    c.Familiar := by
  intro id hid w hw ticks _ e he
  obtain ⟨hreg, hout⟩ := mem_unresolved.1 hid
  obtain ⟨w₀, hmem⟩ := (h.registered id).1 hreg
  have hnot : ¬ ComputedBy actions id := by
    rw [← h.computed, hout]
    exact Bool.false_ne_true
  have hsame : w₀ = w := Option.some.inj ((h.untouched id w₀ hmem hnot).symm.trans hw)
  have hdeclares := hc.found _ hmem ticks e (hsame ▸ he)
  have howner := (h.owner e.name id).2 ⟨w₀, hmem, hdeclares⟩
  rw [contains_events, howner]
  rfl

theorem acyclic (h : Reflects unforced given actions c) (hc : Consistent (registrations actions)) :
    c.Acyclic := by
  intro id hcycle
  refine hc.acyclic id (Relation.TransGen.mono (fun a b hab => ?_) _ _ hcycle)
  obtain ⟨event, hwait, ho, hne, -⟩ := dependsOn_iff.1 hab.2.2
  obtain ⟨w, hw, hwaits⟩ := (h.waits a event).1 hwait
  obtain ⟨wo, hwo, hdeclares⟩ := (h.owner event b).1 ho
  exact ⟨w, wo, event, hw, hwo, hne, hwaits, hdeclares⟩

/-- The widgets that a pass computes are those that no earlier pass has computed. -/
theorem mem_computed_iff (h : Reflects unforced given actions c) (id : String) :
    id ∈ c.resolve.value.2.computed ↔
      (∃ w, (id, w) ∈ registrations actions) ∧ ¬ ComputedBy actions id := by
  rw [mem_computed_resolve_iff, mem_unresolved, h.registered, ← h.computed, Bool.not_eq_true]

/-- The name of each registered widget stands in the history. -/
theorem size_le (h : Reflects unforced given actions c) :
    c.widgets.size ≤ (registrations actions).length := by
  have hsubset : c.widgets.keys ⊆ (registrations actions).map Prod.fst := by
    intro id hid
    obtain ⟨w, hw⟩ := (h.registered id).1 ((Table.mem_keys ..).1 hid)
    exact List.mem_map_of_mem hw
  have hlength := ((Table.nodup_keys c.widgets).subperm hsubset).length_le
  rwa [Table.length_keys, List.length_map] at hlength

theorem heard_resolve (h : Reflects unforced given actions c) (hc : Consistent (registrations actions))
    {before : List String} {id : String} (hid : before ++ [id] <+: c.resolve.value.2.computed)
    {event : String} :
    (c.lastRound.coordinator.unresolved = [] → ∀ other, (c.waitsOf id).contains event = true →
      c.eventOwner event = some other → other ≠ id →
      (c.afterEach before).ticks.find? event = c.resolve.value.1.eventTick event) ∧
    (c.eventOwner event = none → (c.afterEach before).ticks.find? event = none) := by
  constructor
  · intro hover other hwait ho hne
    obtain ⟨passed, hsequenced⟩ := exists_sequenced_resolve c
    have hnot : id ∉ c.resolve.value.2.forced := by
      rw [unforced_of_acyclic (h.familiar hc) hover (h.acyclic hc)]
      exact List.not_mem_nil
    obtain ⟨wo, hmem, -⟩ := (h.owner event other).1 ho
    have hawaits : c.Awaits id event other := ⟨hwait, ho, hne, (h.registered other).2 ⟨wo, hmem⟩⟩
    rw [← hsequenced.given_eq before id hid]
    exact (hsequenced.sound.informed id (mem_of_initial hid) hnot event other hawaits).2
  · intro ho
    have hshorter : before <+: c.resolve.value.2.computed :=
      (List.prefix_append before [id]).trans hid
    rw [find?_ticks, eventTick_eq_none_iff, eventOwner_afterEach (h.familiar hc)
      (nodup_of_initial hshorter) (outdated_of_initial hshorter)]
    exact ho

/-! ### One more pass -/

theorem not_mem_of_computedBy (h : Reflects unforced given actions c) {id : String}
    (hcomputed : ComputedBy actions id) : id ∉ c.resolve.value.2.computed :=
  fun hmem => ((h.mem_computed_iff id).1 hmem).2 hcomputed

/-- A widget that has been computed is left alone. -/
theorem given_of_computedBy (h : Reflects unforced given actions c) {id : String}
    (hcomputed : ComputedBy actions id) : (c.givenBy id .resolve).or (given id) = given id := by
  rw [givenBy_resolve_of_not_mem (h.not_mem_of_computedBy hcomputed), Option.none_or]

/-- Any other registered widget is computed now. -/
theorem exists_before (h : Reflects unforced given actions c) {id : String}
    (hregistered : ComputedBy (actions ++ [.resolve]) id) (hcomputed : ¬ ComputedBy actions id) :
    ∃ before, before ++ [id] <+: c.resolve.value.2.computed ∧
      (c.givenBy id .resolve).or (given id) = some (c.afterEach before).ticks := by
  rw [computedBy_resolve] at hregistered
  obtain ⟨before, hbefore⟩ := exists_initial ((h.mem_computed_iff id).2 ⟨hregistered, hcomputed⟩)
  exact ⟨before, hbefore, by rw [givenBy_resolve hbefore, Option.some_or]⟩

theorem eventOwner_resolve (h : Reflects unforced given actions c)
    (hc : Consistent (registrations actions)) (event : String) :
    c.resolve.value.1.eventOwner event = c.eventOwner event := by
  obtain ⟨_, hsequenced⟩ := exists_sequenced_resolve c
  exact hsequenced.eventOwner_eq (h.familiar hc) event

theorem isResolved_resolve (h : Reflects unforced given actions c) (id : String) :
    c.resolve.value.1.isResolved id = true ↔ ComputedBy (actions ++ [.resolve]) id := by
  obtain ⟨_, hsequenced⟩ := exists_sequenced_resolve c
  rw [computedBy_resolve]
  refine (hsequenced.sound.tracks.resolved id).trans ?_
  rw [h.mem_computed_iff, h.computed]
  constructor
  · rintro (hcomputed | hdue)
    · exact hcomputed.registered
    · exact hdue.1
  · intro hregistered
    by_cases hcomputed : ComputedBy actions id
    · exact .inl hcomputed
    · exact .inr ⟨hregistered, hcomputed⟩

theorem find?_resolve (h : Reflects unforced given actions c) {id : String} {w : H}
    (hmem : (id, w) ∈ registrations actions)
    (hregistered : ComputedBy (actions ++ [.resolve]) id) :
    ∃ ticks, (c.givenBy id .resolve).or (given id) = some ticks ∧
      c.resolve.value.1.widgets.find? id = some (Handle.compute w ticks).value.1 := by
  obtain ⟨_, hsequenced⟩ := exists_sequenced_resolve c
  by_cases hcomputed : ComputedBy actions id
  · rw [h.given_of_computedBy hcomputed, hsequenced.sound.tracks.handles id]
    obtain ⟨ticks, hticks, hw⟩ := h.handles id w hmem hcomputed
    exact ⟨ticks, hticks, by simp [hw, h.not_mem_of_computedBy hcomputed]⟩
  · obtain ⟨before, hbefore, hticks⟩ := h.exists_before hregistered hcomputed
    obtain ⟨w₀, hw₀, hcompute⟩ := hsequenced.handle hbefore
    cases hw₀.symm.trans (h.untouched id w hmem hcomputed)
    exact ⟨_, hticks, hcompute⟩

/-- What has been heard stays true: an owner that is still to be computed was overlooked. -/
theorem eventTick_resolve (h : Reflects unforced given actions c) {id event other : String}
    (hcomputed : ComputedBy actions id) (ho : c.eventOwner event = some other)
    (hnot : ¬ Overlooked actions id other) :
    c.resolve.value.1.eventTick event = c.eventTick event := by
  obtain ⟨_, hsequenced⟩ := exists_sequenced_resolve c
  refine hsequenced.sound.tracks.unchanged event other ho fun hmem => ?_
  obtain ⟨⟨wo, hwo⟩, hlate⟩ := (h.mem_computed_iff other).1 hmem
  exact hnot (overlooked_of_not_computedBy hcomputed hwo hlate)

/-- A pass computes the widgets that no earlier pass has computed and leaves the others as they
are. -/
theorem resolve (h : Reflects unforced given actions c) (hc : Consistent (registrations actions))
    (hover : unforced → c.lastRound.coordinator.unresolved = []) :
    Reflects unforced (fun id => (c.givenBy id .resolve).or (given id)) (actions ++ [.resolve])
      c.resolve.value.1 := by
  obtain ⟨_, hsequenced⟩ := exists_sequenced_resolve c
  refine ⟨fun id => ?_, h.isResolved_resolve, fun event owner => ?_, fun id event => ?_, ?_, ?_, ?_,
    ?_⟩
  · rw [registrations_resolve, ← h.registered]
    exact hsequenced.sound.tracks.contains_iff id
  · rw [registrations_resolve, h.eventOwner_resolve hc]
    exact h.owner event owner
  · rw [registrations_resolve, waitsOf_resolve]
    exact h.waits id event
  · intro id w hmem hnot
    rw [registrations_resolve] at hmem
    exact absurd (computedBy_resolve.2 ⟨w, hmem⟩) hnot
  · intro id w hmem hregistered
    rw [registrations_resolve] at hmem
    exact h.find?_resolve hmem hregistered
  · intro hunforced id ticks hregistered hticks event other hwait ho hne hnot
    rw [waitsOf_resolve] at hwait
    rw [h.eventOwner_resolve hc] at ho
    rw [overlooked_resolve] at hnot
    by_cases hcomputed : ComputedBy actions id
    · rw [h.given_of_computedBy hcomputed] at hticks
      rw [h.eventTick_resolve hcomputed ho hnot]
      exact h.heard hunforced id ticks hcomputed hticks event other hwait ho hne hnot
    · obtain ⟨before, hbefore, hnow⟩ := h.exists_before hregistered hcomputed
      cases hticks.symm.trans hnow
      exact (h.heard_resolve hc hbefore).1 (hover hunforced) other hwait ho hne
  · intro id ticks hregistered hticks event hall
    by_cases hcomputed : ComputedBy actions id
    · rw [h.given_of_computedBy hcomputed] at hticks
      refine h.unheard id ticks hcomputed hticks event fun other ho => ?_
      rw [← h.eventOwner_resolve hc] at ho
      exact overlooked_resolve.1 (hall other ho)
    · obtain ⟨before, hbefore, hnow⟩ := h.exists_before hregistered hcomputed
      cases hticks.symm.trans hnow
      refine (h.heard_resolve hc hbefore).2 ?_
      cases ho : c.eventOwner event with
      | none => rfl
      | some other =>
        have hlate := overlooked_resolve.1 (hall other ((h.eventOwner_resolve hc event).trans ho))
        exact absurd hlate.computedBy hcomputed

end Reflects

theorem factor_performAll (c : Coordinator H) (actions : List (Action H)) :
    (c.performAll actions).factor = c.factor := by
  induction actions using List.reverseRecOn with
  | nil => rfl
  | append_singleton actions action ih =>
    rw [performAll_concat]
    refine Eq.trans ?_ ih
    cases action with
    | register id w => exact factor_register _ id w
    | resolve =>
      obtain ⟨given, hsequenced⟩ := exists_sequenced_resolve (c.performAll actions)
      exact (congrArg factor hsequenced.replayed).trans (factor_afterEach _ _)

/-- Every history of registrations and passes is reflected; no pass has to force a widget as long as
the budget for all that are registered does not wrap around. -/
theorem reflects_performAll (settings : CoordinatorSettings) {actions : List (Action H)}
    {unforced : Prop} (hc : Consistent (registrations actions))
    (hfits : unforced →
      max 1 settings.iterationFactor * max 1 (registrations actions).length < 2 ^ 64) :
    Reflects unforced (fun id => (empty settings : Coordinator H).lastGiven id actions) actions
      ((empty settings).performAll actions) := by
  induction actions using List.reverseRecOn with
  | nil => exact Reflects.empty _ settings
  | append_singleton actions action ih =>
    have hshorter := registrations_sublist (List.prefix_append actions [action])
    have hearlier := hc.sublist hshorter
    have hfits' : unforced →
        max 1 settings.iterationFactor * max 1 (registrations actions).length < 2 ^ 64 := by
      intro hunforced
      refine Nat.lt_of_le_of_lt (Nat.mul_le_mul_left _ ?_) (hfits hunforced)
      have hlength := hshorter.length_le
      omega
    simp only [performAll_concat, lastGiven_concat]
    cases action with
    | register id w =>
      rw [registrations_register] at hc
      exact (ih hearlier hfits').register hc
    | resolve =>
      refine (ih hearlier hfits').resolve hearlier fun hunforced => ?_
      refine unresolved_lastRound (length_unresolved_le_budget ?_)
      rw [factor_performAll]
      refine Nat.lt_of_le_of_lt (Nat.mul_le_mul_left _ ?_) (hfits' hunforced)
      have hsize := (ih hearlier hfits').size_le
      omega

/-- After a last pass, the ticks that a widget was computed with last are those of now, for each
event of another widget that it waits for, only if the other widget was not registered when an earlier
pass had already computed the one that waits. Unless the budget wraps around, they are then those of
now. -/
theorem heard_iff_not_overlooked (settings : CoordinatorSettings) {actions : List (Action H)}
    (hc : Consistent (registrations actions)) {id other event : String} {w wo : H}
    (hid : (id, w) ∈ registrations actions) (hother : (other, wo) ∈ registrations actions)
    (hne : other ≠ id) (hwaits : (Handle.waitingFor w).value.contains event = true)
    (hdeclares : event ∈ declares wo) {c : Coordinator H}
    (hlast : (empty settings).performAll (actions ++ [.resolve]) = c) :
    ∃ ticks, (empty settings : Coordinator H).lastGiven id (actions ++ [.resolve]) = some ticks ∧
      c.widgets.find? id = some (Handle.compute w ticks).value.1 ∧
      (ticks.find? event = c.eventTick event → ¬ Overlooked actions id other) ∧
      (max 1 settings.iterationFactor * max 1 (registrations actions).length < 2 ^ 64 →
        (ticks.find? event = c.eventTick event ↔ ¬ Overlooked actions id other)) := by
  have hc' : Consistent (registrations (actions ++ [.resolve])) := by
    rw [registrations_resolve]
    exact hc
  have hreflects := reflects_performAll settings hc' fun hfits :
      max 1 settings.iterationFactor * max 1 (registrations actions).length < 2 ^ 64 => by
    rwa [registrations_resolve]
  rw [hlast] at hreflects
  have hcomputed : ComputedBy (actions ++ [.resolve]) id := computedBy_resolve.2 ⟨w, hid⟩
  have hwait : (c.waitsOf id).contains event = true := by
    rw [hreflects.waits, registrations_resolve]
    exact ⟨w, hid, hwaits⟩
  have howner : c.eventOwner event = some other := by
    rw [hreflects.owner, registrations_resolve]
    exact ⟨wo, hother, hdeclares⟩
  rw [← registrations_resolve] at hid
  obtain ⟨ticks, hticks, hw⟩ := hreflects.handles id w hid hcomputed
  have hnever : ticks.find? event = c.eventTick event → ¬ Overlooked actions id other := by
    intro hheard hlate
    have hnone := hreflects.unheard id ticks hcomputed hticks event fun x hx => by
      cases hx.symm.trans howner
      exact overlooked_resolve.2 hlate
    rw [hnone] at hheard
    have hunowned := eventTick_eq_none_iff.1 hheard.symm
    rw [howner] at hunowned
    cases hunowned
  refine ⟨ticks, hticks, hw, hnever, fun hfits => ⟨hnever, fun hnot => ?_⟩⟩
  exact hreflects.heard hfits id ticks hcomputed hticks event other hwait howner hne
    fun hlate => hnot (overlooked_resolve.1 hlate)

def caller : FixedWidget := .of [⟨"go", 12⟩] [] [⟨"go", 12⟩]

def responder : FixedWidget := .of [] ["go"] []

theorem consistent_call : Consistent [("b", responder), ("a", caller)] where
  nodup := by decide
  owned := by
    intro x hx y hy event hdx hdy
    have hone : ∀ z ∈ [("b", responder), ("a", caller)], event ∈ declares z.2 →
        z = ("a", caller) := by
      intro z hz hdeclares
      simp only [List.mem_cons, List.not_mem_nil, or_false] at hz
      rcases hz with rfl | rfl
      · cases hdeclares
      · rfl
    rw [hone x hx hdx, hone y hy hdy]
  found := by
    intro x hx ticks e he
    simp only [List.mem_cons, List.not_mem_nil, or_false] at hx
    rcases hx with rfl | rfl
    · cases he
    · exact List.mem_map_of_mem he
  acyclic := by
    refine not_transGen_of_rank (fun id => if id = "b" then 1 else 0) fun id other hexpects => ?_
    obtain ⟨w, wo, event, hw, hwo, hne, hwait, hdeclares⟩ := hexpects
    simp only [List.mem_cons, Prod.mk.injEq, List.not_mem_nil, or_false] at hw hwo
    rcases hwo with ⟨rfl, rfl⟩ | ⟨rfl, rfl⟩
    · cases hdeclares
    · rcases hw with ⟨rfl, rfl⟩ | ⟨rfl, rfl⟩
      · decide
      · exact absurd rfl hne

/-- The event is heard if the widget that announces it is registered before the first pass. -/
theorem heard_iff_not_overlooked_call :
    ∃ ticks, (empty {}).lastGiven "b"
        [.register "b" responder, .register "a" caller, .resolve] = some ticks ∧
      ticks.find? "go" = some 12 := by
  let actions : List (Action FixedWidget) := [.register "b" responder, .register "a" caller]
  have hnot : ¬ Overlooked actions "b" "a" := by
    intro hlate
    obtain ⟨earlier, w, hinitial, hmem⟩ := hlate.computedBy
    have hresolve : Action.resolve ∈ actions := hinitial.subset List.mem_concat_self
    simp [actions] at hresolve
  have hb : ("b", responder) ∈ registrations actions := List.mem_cons_self
  have ha : ("a", caller) ∈ registrations actions := List.mem_cons_of_mem _ List.mem_cons_self
  have hwaits : (Handle.waitingFor responder).value.contains "go" = true := by decide
  have hdeclares : "go" ∈ declares caller := by decide
  have hconsistent : Consistent (registrations actions) := consistent_call
  obtain ⟨ticks, hticks, -, -, hheard⟩ :=
    heard_iff_not_overlooked {} hconsistent hb ha (by decide) hwaits hdeclares rfl
  refine ⟨ticks, hticks, ((hheard (by decide)).2 hnot).trans ?_⟩
  decide

/-- A widget that waits for an event and is computed before the one that announces it is registered
never hears of it, although the event has a tick then. -/
theorem unheard_of_late_announcer :
    Consistent (registrations
        [.register "b" responder, .resolve, .register "a" caller, .resolve]) ∧
    ∃ ticks, (empty {}).lastGiven "b"
        [.register "b" responder, .resolve, .register "a" caller, .resolve] = some ticks ∧
      ticks.find? "go" = none ∧
      ((empty {}).performAll [.register "b" responder, .resolve, .register "a" caller,
        .resolve]).eventTick "go" = some 12 := by
  refine ⟨consistent_call, _, rfl, ?_, ?_⟩ <;> decide

end Coordinator
end Choreography
