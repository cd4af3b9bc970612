import Choreography.AnimatedWidget
import Choreography.Proofs.Resolution

/-! # Histories of a coordinator

The states that the operations of a coordinator lead to, and what every pass does in them. -/
namespace Choreography
namespace Coordinator
variable {H : Type}

/-- A coordinator that has come about by its own operations; a registered widget may also have been
changed in place. -/
inductive Reachable [Handle H] : Coordinator H → Prop
  | empty (settings : CoordinatorSettings) : Reachable (empty settings)
  | clear {c : Coordinator H} (h : Reachable c) : Reachable c.clear
  | registerWidget {c : Coordinator H} (h : Reachable c) (id : String) (w : H) :
      Reachable (c.registerWidget id w)
  | registerEvent {c : Coordinator H} (h : Reachable c) (owner event : String) (tick : Nat) :
      Reachable (c.registerEvent owner event tick).value
  | registerWait {c : Coordinator H} (h : Reachable c) (id event : String) :
      Reachable (c.registerWait id event)
  | register {c : Coordinator H} (h : Reachable c) (id : String) (w : H) :
      Reachable (c.register id w).value
  | update {c : Coordinator H} {result : Logged (Coordinator H)} (h : Reachable c) (id : String)
      (w : H) (hu : c.update id w = .ok result) : Reachable result.value
  | invalidate {c : Coordinator H} (h : Reachable c) (id : String) : Reachable (c.invalidate id)
  | change {c : Coordinator H} (h : Reachable c) {id : String} (w : H)
      (hid : c.widgets.contains id = true) :
      Reachable { c with widgets := c.widgets.insert id w }
  | resolve {c : Coordinator H} (h : Reachable c) : Reachable c.resolve.value.1

def Covered (c : Coordinator H) : Prop :=
  ∀ id, c.isResolved id = true → c.widgets.contains id = true

theorem Covered.registerWidget {c : Coordinator H} (h : c.Covered) (id : String) (w : H) :
    (c.registerWidget id w).Covered := by
  intro x hx
  have herase : x ≠ id ∧ c.resolved.contains x = true := (Table.contains_erase ..).1 hx
  exact (Table.contains_insert ..).2 (Or.inr (h x herase.2))

theorem Covered.invalidate {c : Coordinator H} (h : c.Covered) (id : String) :
    (c.invalidate id).Covered := fun x hx => h x (Table.contains_filter.1 hx).1

@[simp] theorem widgets_registerEvents (id : String) (c : Coordinator H) (es : List SyncEvent) :
    (registerEvents id c es).value.widgets = c.widgets := by
  induction es generalizing c with
  | nil => rfl
  | cons e rest ih => exact ih _

@[simp] theorem resolved_registerEvents (id : String) (c : Coordinator H) (es : List SyncEvent) :
    (registerEvents id c es).value.resolved = c.resolved := by
  induction es generalizing c with
  | nil => rfl
  | cons e rest ih => exact ih _

@[simp] theorem waits_registerEvents (id : String) (c : Coordinator H) (es : List SyncEvent) :
    (registerEvents id c es).value.waits = c.waits := by
  induction es generalizing c with
  | nil => rfl
  | cons e rest ih => exact ih _

@[simp] theorem factor_registerEvents (id : String) (c : Coordinator H) (es : List SyncEvent) :
    (registerEvents id c es).value.factor = c.factor := by
  induction es generalizing c with
  | nil => rfl
  | cons e rest ih => exact ih _

@[simp] theorem widgets_registerWaits (c : Coordinator H) (id : String) (events : List String) :
    (c.registerWaits id events).widgets = c.widgets := by
  unfold registerWaits
  induction events generalizing c with
  | nil => rfl
  | cons e rest ih => exact ih _

@[simp] theorem resolved_registerWaits (c : Coordinator H) (id : String) (events : List String) :
    (c.registerWaits id events).resolved = c.resolved := by
  unfold registerWaits
  induction events generalizing c with
  | nil => rfl
  | cons e rest ih => exact ih _

@[simp] theorem factor_registerWaits (c : Coordinator H) (id : String) (events : List String) :
    (c.registerWaits id events).factor = c.factor := by
  unfold registerWaits
  induction events generalizing c with
  | nil => rfl
  | cons e rest ih => exact ih _

@[simp] theorem events_registerWaits (c : Coordinator H) (id : String) (events : List String) :
    (c.registerWaits id events).events = c.events := by
  unfold registerWaits
  induction events generalizing c with
  | nil => rfl
  | cons e rest ih => exact ih _

variable [Handle H]

/-- A registration records the events, then the waits, then the widget. -/
theorem value_register (c : Coordinator H) (id : String) (w : H) :
    (c.register id w).value =
      ((registerEvents id c (firstEvents [] (Handle.syncEvents w).value)).value.registerWaits id
        (Handle.waitingFor w).value.keys).registerWidget id w := rfl

theorem factor_register (c : Coordinator H) (id : String) (w : H) :
    (c.register id w).value.factor = c.factor := by
  rw [value_register, registerWidget, factor_registerWaits, factor_registerEvents]

theorem Covered.register {c : Coordinator H} (h : c.Covered) (id : String) (w : H) :
    (c.register id w).value.Covered := by
  rw [value_register]
  refine Covered.registerWidget (fun x hx => ?_) id w
  rw [widgets_registerWaits, widgets_registerEvents]
  rw [isResolved, resolved_registerWaits, resolved_registerEvents] at hx
  exact h x hx

theorem Covered.resolve {c : Coordinator H} (h : c.Covered) : c.resolve.value.1.Covered := by
  obtain ⟨given, hsound, _⟩ := exists_sound_resolve c
  intro id hid
  rw [hsound.tracks.contains_iff]
  rcases (hsound.tracks.resolved id).1 hid with hid | hid
  · exact h id hid
  · exact (mem_unresolved.1 (hsound.tracks.outdated id hid)).1

theorem Reachable.covered {c : Coordinator H} (h : c.Reachable) : c.Covered := by
  induction h with
  | empty settings => exact fun x hx => by cases hx
  | clear _ _ => exact fun x hx => by cases hx
  | registerWidget _ id w ih => exact ih.registerWidget id w
  | registerEvent _ owner event tick ih => exact ih
  | registerWait _ id event ih => exact ih
  | register _ id w ih => exact ih.register id w
  | @update c result _ id w hu ih =>
    simp only [Coordinator.update] at hu
    split at hu
    · cases hu
      have hwithdrawn : ((c.invalidate id).withdraw id).Covered := ih.invalidate id
      exact (hwithdrawn.register id w).invalidate id
    · cases hu
  | invalidate _ id ih => exact ih.invalidate id
  | change _ w _ ih => exact fun x hx => (Table.contains_insert ..).2 (Or.inr (ih x hx))
  | resolve _ ih => exact ih.resolve

end Coordinator

/-- A widget that announces the same events whatever ticks it is given, and remembers these. -/
structure FixedWidget where
  announces : List SyncEvent
  awaits : List String
  /-- The events that its computation finds. -/
  finds : List SyncEvent
  heard : Table Nat

namespace FixedWidget

def of (announces : List SyncEvent) (awaits : List String) (finds : List SyncEvent) :
    FixedWidget := ⟨announces, awaits, finds, ∅⟩

instance : Handle FixedWidget where
  syncEvents w := pure w.announces
  waitingFor w := pure (w.awaits.foldl Table.add ∅)
  compute w ticks := pure ({ w with heard := ticks }, w.finds)

end FixedWidget

namespace Coordinator

end Coordinator
end Choreography
