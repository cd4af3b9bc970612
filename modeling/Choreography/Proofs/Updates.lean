import Choreography.Proofs.Dependents
import Choreography.Proofs.RegistrationOrder

/-! # The effect of an update

An update looks for the widgets that it affects in two graphs. The old one has those that waited for
an event that the widget no longer announces, the new one those that wait for an event that it takes
over from another widget. -/
namespace Choreography.Coordinator
variable {H : Type} [Handle H] {c : Coordinator H} {id : String}

/-- What an update of a registered widget leaves. -/
structure Updated (c : Coordinator H) (id : String) (w : H) (c' : Coordinator H) : Prop where
  resolved : ∀ other, c'.isResolved other = true ↔
    c.isResolved other = true ∧ other ≠ id ∧ ¬ c.Relies other id ∧ ¬ c'.Relies other id
  declared : ∀ event ∈ declares w, ∃ tick,
    firstTick (Handle.syncEvents w).value event = some tick ∧
      c'.events.find? event = some ⟨id, tick⟩
  dropped : ∀ event ∉ declares w, c.eventOwner event = some id → c'.events.find? event = none
  kept : ∀ event ∉ declares w, c.eventOwner event ≠ some id →
    c'.events.find? event = c.events.find? event
  waits : c'.waitsOf id = (Handle.waitingFor w).value
  waits_other : ∀ other ≠ id, c'.waits.find? other = c.waits.find? other
  widgets : c'.widgets = c.widgets.insert id w
  factor : c'.factor = c.factor

/-- Of the events that are not declared anew, those of other owners stay. -/
theorem find?_events_update (h : c.widgets.contains id = true) (w : H) (event : String) :
    (c.operate (.update id w)).events.find? event =
      ((firstTick (Handle.syncEvents w).value event).map (Ownership.mk id)).or
        ((c.events.find? event).filter fun o => o.owner != id) := by
  have hwithdrawn : ((c.invalidate id).withdraw id).events.find? event =
      (c.events.find? event).filter fun o => o.owner != id := Table.find?_filter ..
  rw [operate_update h, ← hwithdrawn]
  exact find?_events_register _ id w event

/-- What happens to the other events goes by their owners. -/
theorem find?_events_update_of_not_mem (h : c.widgets.contains id = true) {w : H} {event : String}
    (hevent : event ∉ declares w) :
    (c.operate (.update id w)).events.find? event =
      if c.eventOwner event = some id then none else c.events.find? event := by
  rw [find?_events_update h, firstTick_eq_none hevent, eventOwner]
  cases c.events.find? event with
  | none => simp
  | some o => by_cases ho : o.owner = id <;> simp [ho]

theorem waitsOf_update (h : c.widgets.contains id = true) (w : H) :
    (c.operate (.update id w)).waitsOf id = (Handle.waitingFor w).value := by
  have hwithdrawn : ((c.invalidate id).withdraw id).waitsOf id = ∅ := by
    rw [waitsOf, withdraw, Table.find?_erase, if_pos rfl]
    rfl
  rw [operate_update h]
  apply Table.ext_contains
  intro event
  refine (waitsOf_register _ id w id event).trans ?_
  rw [hwithdrawn, Table.contains_emptyCollection]
  simp

theorem find?_waits_update (h : c.widgets.contains id = true) (w : H) {other : String}
    (hother : other ≠ id) :
    (c.operate (.update id w)).waits.find? other = c.waits.find? other := by
  rw [operate_update h]
  refine (find?_waits_register _ id w other).trans ?_
  rw [if_neg hother]
  exact (Table.find?_erase ..).trans (if_neg hother)

theorem isResolved_update_iff (h : c.widgets.contains id = true) (w : H) (other : String) :
    (c.operate (.update id w)).isResolved other = true ↔
      c.isResolved other = true ∧ other ≠ id ∧ ¬ c.Relies other id ∧
        ¬ (c.operate (.update id w)).Relies other id := by
  rw [operate_update h, isResolved_invalidate_iff, isResolved_register_iff]
  have hmarked : ((c.invalidate id).withdraw id).isResolved other = true ↔
      c.isResolved other = true ∧ other ≠ id ∧ ¬ c.Relies other id := isResolved_invalidate_iff
  rw [hmarked]
  -- marking a widget changes neither waits nor owners, so both see the same graph
  change _ ↔ _ ∧ _ ∧ _ ∧ ¬ Relies (Logged.value _) other id
  tauto

theorem updated_operate (h : c.widgets.contains id = true) (w : H) :
    c.Updated id w (c.operate (.update id w)) where
  resolved := isResolved_update_iff h w
  declared event hevent := by
    obtain ⟨e, he, rfl⟩ := List.mem_map.1 hevent
    obtain ⟨tick, htick⟩ := exists_firstTick he
    refine ⟨tick, htick, ?_⟩
    rw [find?_events_update h, htick]
    rfl
  dropped event hevent howner := by
    rw [find?_events_update_of_not_mem h hevent, if_pos howner]
  kept event hevent howner := by
    rw [find?_events_update_of_not_mem h hevent, if_neg howner]
  waits := waitsOf_update h w
  waits_other other hother := find?_waits_update h w hother
  widgets := by
    apply Table.ext_find?
    intro other
    rw [find?_widgets_update h, Table.find?_insert]
  factor := by
    rw [operate_update h]
    exact factor_register _ id w

/-- An update of a registered widget leaves the events and waits of the new one, and makes exactly
the widget and those that rely on it, before or after, out of date. An update of any other one
fails and changes nothing. -/
theorem update_affects_both_graphs (c : Coordinator H) (id : String) (w : H) :
    (c.widgets.contains id = false →
      c.update id w = .error (.unknownWidget id) ∧ c.operate (.update id w) = c) ∧
    (c.widgets.contains id = true →
      (∃ log, c.update id w = .ok ⟨c.operate (.update id w), log⟩) ∧
      c.Updated id w (c.operate (.update id w))) := by
  refine ⟨fun h => ⟨?_, operate_update_of_not_contains h w⟩, fun h => ⟨?_, updated_operate h w⟩⟩
  · rw [update, if_neg (Bool.eq_false_iff.1 h)]
  · rw [operate_update h, update, if_pos h]
    exact ⟨_, rfl⟩

/-- All are up to date, `c` has waited for an event of `b`, and `d` for one of `a`. -/
def desk : Coordinator FixedWidget :=
  ((empty {}).registerEach
    [("a", .of [⟨"x", 1⟩] [] [⟨"x", 1⟩]), ("b", .of [⟨"y", 5⟩] [] [⟨"y", 5⟩]),
      ("c", .of [] ["y"] []), ("d", .of [] ["x"] [])]).value.resolve.value.1

def successor : FixedWidget := .of [⟨"x", 2⟩, ⟨"x", 9⟩] ["z"] []

theorem update_affects_both_graphs_desk :
    let after := desk.operate (.update "b" successor)
    desk.unresolved = [] ∧ after.unresolved = ["b", "c", "d"] ∧
      ¬ desk.Relies "a" "b" ∧ ¬ after.Relies "a" "b" ∧
      after.events.find? "x" = some ⟨"b", 2⟩ ∧ after.events.find? "y" = none ∧
      desk.update "e" successor = .error (.unknownWidget "e") := by
  intro after
  obtain ⟨-, hupdated⟩ := (update_affects_both_graphs desk "b" successor).2 (by decide)
  obtain ⟨-, -, hbefore, hafter⟩ := (hupdated.resolved "a").1 (by decide)
  obtain ⟨tick, htick, hx⟩ := hupdated.declared "x" (by decide)
  cases htick
  have hy := hupdated.dropped "y" (by decide) (by decide)
  obtain ⟨hfails, -⟩ := (update_affects_both_graphs desk "e" successor).1 (by decide)
  exact ⟨by decide, by decide, hbefore, hafter, hx, hy, hfails⟩

end Choreography.Coordinator
