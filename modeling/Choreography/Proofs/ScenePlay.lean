import Choreography.Proofs.Alignment
import Choreography.Proofs.Limits
import Choreography.Proofs.Operations
import Choreography.Proofs.RegistrationOrder
import Choreography.Proofs.SceneText
import Mathlib.Data.List.Perm.Basic

/-! # Playing a scene

A scene is accepted if its widgets have names of their own, and one pass then gives every widget a
timeline to play, whatever its program. As for a single run, this only takes room for the places
that the runs may remember. -/
namespace Choreography
namespace Scene
open Coordinator

variable {s : Scene} (settings : Settings)

theorem map_fst_entries (s : Scene) (settings : Settings) :
    (s.entries settings).map Prod.fst = s.widgets.map SceneWidget.id := by
  rw [entries, List.map_map]
  rfl

/-- What is registered under a name before a pass. -/
theorem find?_coordinator (hs : s.Named) {w : SceneWidget} (hw : w ∈ s.widgets) :
    (s.coordinator settings).value.widgets.find? w.id = some (w.animated settings.engine) := by
  have hnodup : ((s.entries settings).map Prod.fst).Nodup := by
    rw [map_fst_entries]
    exact hs.distinct
  exact find?_registerEach hnodup (List.mem_map_of_mem hw) _

theorem contains_coordinator_iff (hs : s.Named) (id : String) :
    (s.coordinator settings).value.widgets.contains id = true ↔
      id ∈ s.widgets.map SceneWidget.id := by
  rw [Table.contains_iff]
  constructor
  · rintro ⟨a, ha⟩
    have hmem : (id, a) ∈ s.entries settings :=
      mem_of_find?_registerEach settings.coordinator ha
    rw [← map_fst_entries s settings]
    exact List.mem_map_of_mem (f := Prod.fst) hmem
  · intro hid
    obtain ⟨w, hw, rfl⟩ := List.mem_map.mp hid
    exact ⟨_, find?_coordinator settings hs hw⟩

theorem mem_unresolved_coordinator (hs : s.Named) {w : SceneWidget} (hw : w ∈ s.widgets) :
    w.id ∈ (s.coordinator settings).value.unresolved := by
  refine mem_unresolved.mpr ⟨?_, isResolved_registerEach _ rfl⟩
  rw [contains_coordinator_iff settings hs]
  exact List.mem_map_of_mem hw

theorem find?_resolve (hs : s.Named) {w : SceneWidget} (hw : w ∈ s.widgets) :
    ∃ a, (s.coordinator settings).value.resolve.value.1.widgets.find? w.id = some a ∧
      (w.animated settings.engine).Computed a := by
  have hfind := find?_coordinator settings hs hw
  have hout := mem_unresolved_coordinator settings hs hw
  obtain ⟨ticks, hafter⟩ := find?_widgets_resolve (s.coordinator settings).value w.id
  rw [hfind, Option.map_some, if_pos hout] at hafter
  exact ⟨_, hafter, ⟨ticks, rfl⟩, rfl⟩

/-- The pass over the widgets of a scene is the one of its coordinator. -/
theorem played?_eq_resolve? (hs : s.Named) : s.played? settings =
    (s.coordinator settings).value.resolve?.map fun r => r.value.1 := by
  have hroom : (s.widgets.all fun w => (w.performance settings.engine).settings.isRunnable) =
      (s.coordinator settings).value.unresolved.all fun id =>
        ((s.coordinator settings).value.widgets.find? id).all Handle.hasRoom := by
    rw [Bool.eq_iff_iff, List.all_eq_true, List.all_eq_true]
    constructor
    · intro hall id hid
      obtain ⟨w, hw, rfl⟩ := List.mem_map.mp
        ((contains_coordinator_iff settings hs id).mp (mem_unresolved.mp hid).1)
      rw [find?_coordinator settings hs hw]
      exact hall w hw
    · intro hall w hw
      have hroom := hall w.id (mem_unresolved_coordinator settings hs hw)
      rwa [find?_coordinator settings hs hw] at hroom
  rw [played?, resolve?, hroom]
  split <;> rfl

def still : Scene where
  widgets := [⟨"a", 1, 1, ⟨9, 9⟩, .plain 0 0, ∅, [.pause .one]⟩]

end Scene
end Choreography
