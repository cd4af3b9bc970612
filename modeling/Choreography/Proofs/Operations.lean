import Choreography.Proofs.FinalTicks

/-! # Operations on a coordinator

The operations as data and histories as lists of them, with what each operation does to the
widgets, to the owners of events and to what is up to date. -/
namespace Choreography

inductive Operation (H : Type) where
  | register (id : String) (w : H)
  | registerWidget (id : String) (w : H)
  | update (id : String) (w : H)
  | invalidate (id : String)
  | change (id : String) (f : H → H)
  | clear
  | resolve

/-- Some member of a list starts something and no later one stops it. Both are told with what comes
before them in the list. -/
def Since {α : Type} (starts stops : List α → α → Prop) (list : List α) : Prop :=
  ∃ earlier x later, list = earlier ++ x :: later ∧ starts earlier x ∧
    ∀ between y, between ++ [y] <+: later → ¬ stops (earlier ++ x :: between) y

theorem not_since_nil {α : Type} {starts stops : List α → α → Prop} : ¬ Since starts stops [] := by
  rintro ⟨earlier, x, later, hlist, -⟩
  cases earlier <;> cases hlist

theorem since_concat {α : Type} {starts stops : List α → α → Prop} {list : List α} {last : α} :
    Since starts stops (list ++ [last]) ↔
      starts list last ∨ (Since starts stops list ∧ ¬ stops list last) := by
  constructor
  · rintro ⟨earlier, x, later, hlist, hstarts, hstops⟩
    rcases List.eq_nil_or_concat' later with rfl | ⟨later, y, rfl⟩
    · obtain ⟨rfl, hlast⟩ := List.append_inj' hlist rfl
      cases hlast
      exact .inl hstarts
    · rw [← List.cons_append, ← List.append_assoc] at hlist
      obtain ⟨rfl, hlast⟩ := List.append_inj' hlist rfl
      cases hlast
      refine .inr ⟨⟨earlier, x, later, rfl, hstarts, fun between y hy => ?_⟩, ?_⟩
      · exact hstops between y (hy.trans (List.prefix_append _ _))
      · exact hstops later last (List.prefix_refl _)
  · rintro (hstarts | ⟨⟨earlier, x, later, rfl, hstarts, hstops⟩, hlast⟩)
    · refine ⟨list, last, [], rfl, hstarts, fun between y hy => ?_⟩
      exact absurd (List.prefix_nil.1 hy) (by simp)
    · refine ⟨earlier, x, later ++ [last], by simp, hstarts, fun between y hy => ?_⟩
      rcases Coordinator.initial_concat_cases hy with ⟨rfl, rfl⟩ | hy
      · exact hlast
      · exact hstops between y hy

abbrev Descends {H : Type} [Handle H] : H → H → Prop :=
  Relation.ReflTransGen fun w w' => ∃ ticks, w' = (Handle.compute w ticks).value.1

theorem descends_compute {H : Type} [Handle H] (w : H) (ticks : Table Nat) :
    Descends w (Handle.compute w ticks).value.1 := .single ⟨ticks, rfl⟩

namespace Coordinator
variable {H : Type}

def change (c : Coordinator H) (id : String) (f : H → H) : Coordinator H :=
  match c.widgets.find? id with
  | some w => { c with widgets := c.widgets.insert id (f w) }
  | none => c

theorem widgets_invalidate (c : Coordinator H) (id : String) :
    (c.invalidate id).widgets = c.widgets := rfl

theorem eventOwner_invalidate (c : Coordinator H) (id event : String) :
    (c.invalidate id).eventOwner event = c.eventOwner event := rfl

theorem isResolved_of_invalidate {c : Coordinator H} {id other : String}
    (h : (c.invalidate id).isResolved other = true) : c.isResolved other = true :=
  (Table.contains_filter.1 h).1

theorem eventOwner_withdraw (c : Coordinator H) (id event : String) :
    (c.withdraw id).eventOwner event = (c.eventOwner event).filter (· != id) := by
  simp only [eventOwner, withdraw, Table.find?_filter]
  cases c.events.find? event with
  | none => rfl
  | some o =>
    by_cases ho : o.owner = id <;> simp [Option.filter, ho]

theorem find?_widgets_change (c : Coordinator H) (id : String) (f : H → H) (other : String) :
    (c.change id f).widgets.find? other =
      if other = id then (c.widgets.find? id).map f else c.widgets.find? other := by
  unfold change
  split
  · rename_i w hw
    rw [Table.find?_insert, hw]
    rfl
  · rename_i hw
    split
    · rename_i hid
      rw [hid, hw]
      rfl
    · rfl

theorem isResolved_change (c : Coordinator H) (id : String) (f : H → H) (other : String) :
    (c.change id f).isResolved other = c.isResolved other := by
  unfold change
  split <;> rfl

variable [Handle H] {c : Coordinator H}

def operate (c : Coordinator H) : Operation H → Coordinator H
  | .register id w => (c.register id w).value
  | .registerWidget id w => c.registerWidget id w
  | .update id w =>
      match c.update id w with
      | .ok updated => updated.value
      | .error _ => c
  | .invalidate id => c.invalidate id
  | .change id f => c.change id f
  | .clear => c.clear
  | .resolve => c.resolve.value.1

def operateAll (c : Coordinator H) (ops : List (Operation H)) : Coordinator H :=
  ops.foldl operate c

theorem operateAll_concat (c : Coordinator H) (ops : List (Operation H)) (op : Operation H) :
    c.operateAll (ops ++ [op]) = (c.operateAll ops).operate op := by
  rw [operateAll, List.foldl_append]
  rfl

/-! ### Updates -/

section
variable {id : String}

/-- An update invalidates, withdraws, registers and invalidates again. -/
theorem operate_update (h : c.widgets.contains id = true) (w : H) :
    c.operate (.update id w) =
      (((c.invalidate id).withdraw id).register id w).value.invalidate id := by
  simp only [operate, update, h, if_true]
  rfl

theorem operate_update_of_not_contains (h : c.widgets.contains id = false) (w : H) :
    c.operate (.update id w) = c := by
  simp only [operate, update, h, Bool.false_eq_true, if_false]

theorem find?_widgets_update (h : c.widgets.contains id = true) (w : H) (other : String) :
    (c.operate (.update id w)).widgets.find? other =
      if other = id then some w else c.widgets.find? other := by
  rw [operate_update h, widgets_invalidate, find?_widgets_register]
  rfl

theorem eventOwner_update (h : c.widgets.contains id = true) (w : H) (event : String) :
    (c.operate (.update id w)).eventOwner event =
      if event ∈ declares w then some id else (c.eventOwner event).filter (· != id) := by
  rw [operate_update h, eventOwner_invalidate, eventOwner_register, eventOwner_withdraw,
    eventOwner_invalidate]

theorem isResolved_of_update (h : c.widgets.contains id = true) {w : H} {other : String}
    (hres : (c.operate (.update id w)).isResolved other = true) :
    other ≠ id ∧ c.isResolved other = true := by
  rw [operate_update h] at hres
  obtain ⟨hne, hres⟩ := (isResolved_register_iff _ id w other).1 (isResolved_of_invalidate hres)
  exact ⟨hne, isResolved_of_invalidate hres⟩

end

/-! ### Passes -/

theorem find?_widgets_compute {id : String} {w : H} (hw : c.widgets.find? id = some w)
    (other : String) : (c.compute id).value.widgets.find? other =
      if other = id then some (Handle.compute w c.ticks).value.1 else c.widgets.find? other := by
  rw [value_compute hw]
  exact Table.find?_insert ..

theorem budget_compute {id : String} {w : H} (hw : c.widgets.find? id = some w) :
    (c.compute id).value.budget = c.budget := by
  have hsize : (c.widgets.insert id (Handle.compute w c.ticks).value.1).size = c.widgets.size := by
    rw [← Table.length_keys, ← Table.length_keys,
      Table.keys_insert_of_contains _ ((Table.contains_iff ..).2 ⟨w, hw⟩)]
  rw [value_compute hw, budget, budget, hsize]

/-- A computation makes a widget the owner of what it finds and nobody owns. -/
theorem eventOwner_compute_eq {id : String} {w : H} (hw : c.widgets.find? id = some w)
    (event : String) :
    (c.compute id).value.eventOwner event = (c.eventOwner event).or
      (if event ∈ (Handle.compute w c.ticks).value.2.map SyncEvent.name then some id
        else none) := by
  cases ho : c.eventOwner event with
  | some owner => rw [eventOwner_compute hw ho, Option.some_or]
  | none =>
    rw [eventOwner, find?_events_compute hw, Option.map_eq_none_iff.1 ho, Option.none_or]
    split
    · rename_i hfound
      obtain ⟨e, he, rfl⟩ := List.mem_map.1 hfound
      obtain ⟨tick, htick⟩ := exists_firstTick he
      rw [htick]
      rfl
    · rename_i hfound
      rw [firstTick_eq_none hfound]
      rfl

/-- What the computation of any of some widgets keeps, their computation one after the other
keeps. -/
theorem kept_afterEach {P : Coordinator H → Prop} {ids : List String}
    (hP : ∀ c, ∀ id ∈ ids, ∀ w, c.widgets.find? id = some w → P c → P (c.compute id).value)
    (hc : P c) : P (c.afterEach ids) := by
  induction ids generalizing c with
  | nil => exact hc
  | cons id rest ih =>
    refine ih (fun c x hx => hP c x (List.mem_cons_of_mem id hx)) ?_
    cases hw : c.widgets.find? id with
    | some w => exact hP c id List.mem_cons_self w hw hc
    | none =>
      simp only [compute, hw]
      exact hc

theorem resolve_eq_afterEach (c : Coordinator H) :
    c.resolve.value.1 = c.afterEach c.resolve.value.2.computed := by
  obtain ⟨given, hsequenced⟩ := exists_sequenced_resolve c
  exact hsequenced.replayed

theorem budget_resolve (c : Coordinator H) : c.resolve.value.1.budget = c.budget := by
  rw [resolve_eq_afterEach]
  exact kept_afterEach (P := fun d => d.budget = c.budget)
    (fun d _ _ _ hw hd => (budget_compute hw).trans hd) rfl

/-- A pass leaves no registered widget out of date. -/
theorem isResolved_resolve {id : String} (h : c.resolve.value.1.widgets.contains id = true) :
    c.resolve.value.1.isResolved id = true := by
  obtain ⟨-, -, -, hover⟩ := exists_sound_resolve c
  by_contra hout
  have hleft := mem_unresolved.2 ⟨h, Bool.eq_false_iff.2 hout⟩
  rw [hover] at hleft
  exact List.not_mem_nil hleft

/-- A pass computes the widgets that are out of date and leaves the others as they are. -/
theorem find?_widgets_resolve (c : Coordinator H) (id : String) :
    ∃ ticks, c.resolve.value.1.widgets.find? id = (c.widgets.find? id).map fun w =>
      if id ∈ c.unresolved then (Handle.compute w ticks).value.1 else w := by
  obtain ⟨given, hsound, -⟩ := exists_sound_resolve c
  refine ⟨given id, ?_⟩
  rw [hsound.tracks.handles id]
  simp only [mem_computed_resolve_iff]

/-- A widget whose turn comes in a pass is still the one that the pass began with. -/
theorem find?_widgets_before {before : List String} {id : String}
    (h : before ++ [id] <+: c.resolve.value.2.computed) :
    (c.afterEach before).widgets.find? id = c.widgets.find? id := by
  obtain ⟨given, hsequenced⟩ := exists_sequenced_resolve c
  have htracks := hsequenced.sound.tracks
  obtain ⟨hnodup, hnew⟩ := nodup_concat (htracks.nodup.sublist h.sublist)
  obtain ⟨given', hbefore⟩ := exists_tracks_afterEach hnodup fun x hx =>
    htracks.outdated x (h.subset (List.mem_append_left _ hx))
  rw [hbefore.handles id]
  simp only [if_neg hnew, Option.map_id']

/-- A pass comes to its end exactly if there is room for each timeline when its turn comes. -/
theorem isSome_resolve?_iff (c : Coordinator H) :
    c.resolve?.isSome = true ↔ ∀ before id, before ++ [id] <+: c.resolve.value.2.computed →
      ((c.afterEach before).widgets.find? id).all Handle.hasRoom = true := by
  have hsome : c.resolve?.isSome = true ↔
      ∀ id ∈ c.unresolved, (c.widgets.find? id).all Handle.hasRoom = true := by
    rw [resolve?, ← List.all_eq_true]
    split <;> simp_all
  rw [hsome]
  constructor
  · intro hall before id hid
    rw [find?_widgets_before hid]
    exact hall id ((mem_computed_resolve_iff c id).1 (mem_of_initial hid))
  · intro hall id hid
    obtain ⟨before, hbefore⟩ := exists_initial ((mem_computed_resolve_iff c id).2 hid)
    rw [← find?_widgets_before hbefore]
    exact hall before id hbefore

end Coordinator
end Choreography
