import Choreography.Proofs.CycleSearch

/-! # Passes of resolution

What a pass has done at each moment, in terms of the coordinator that it started from: which
widgets have been computed with which ticks, and what that has made of the events. -/
namespace Choreography.Coordinator
variable {H : Type}

/-! ## Exact ticks -/

def firstTick (events : List SyncEvent) (event : String) : Option Nat :=
  (events.find? fun e => e.name == event).map SyncEvent.tick

theorem firstTick_cons (e : SyncEvent) (rest : List SyncEvent) (event : String) :
    firstTick (e :: rest) event = if e.name = event then some e.tick else firstTick rest event := by
  by_cases h : e.name = event <;> simp [firstTick, h]

theorem exists_firstTick {events : List SyncEvent} {e : SyncEvent} (he : e ∈ events) :
    ∃ tick, firstTick events e.name = some tick := by
  induction events with
  | nil => cases he
  | cons first rest ih =>
    rw [firstTick_cons]
    split
    · exact ⟨first.tick, rfl⟩
    · rename_i hne
      rcases List.mem_cons.mp he with rfl | hrest
      · exact absurd rfl hne
      · exact ih hrest

theorem firstTick_eq_none {events : List SyncEvent} {event : String}
    (h : event ∉ events.map SyncEvent.name) : firstTick events event = none := by
  simp only [firstTick, Option.map_eq_none_iff, List.find?_eq_none, beq_iff_eq]
  exact fun e he heq => h (List.mem_map.2 ⟨e, he, heq⟩)

theorem firstTick_append (events more : List SyncEvent) (event : String) :
    firstTick (events ++ more) event = (firstTick events event).or (firstTick more event) := by
  rw [firstTick, List.find?_append, Option.map_or]
  rfl

theorem firstTick_firstEvents (seen : List String) (events : List SyncEvent) (event : String) :
    firstTick (firstEvents seen events) event =
      if event ∈ seen then none else firstTick events event := by
  induction events generalizing seen with
  | nil => simp [firstEvents, firstTick]
  | cons e rest ih =>
    rw [firstTick_cons]
    by_cases hseen : e.name ∈ seen
    · have hne : event ∉ seen → e.name ≠ event := fun h heq => h (heq ▸ hseen)
      simp only [firstEvents, List.contains_eq_mem, hseen, decide_true, if_true, ih]
      split
      · rfl
      · rename_i h
        simp [hne h]
    · simp only [firstEvents, List.contains_eq_mem, hseen, decide_false, Bool.false_eq_true,
        if_false, firstTick_cons, ih, List.mem_cons]
      by_cases heq : e.name = event
      · subst heq
        simp [hseen]
      · simp [heq, Ne.symm heq]

theorem nodup_firstEvents (seen : List String) (events : List SyncEvent) :
    ((firstEvents seen events).map SyncEvent.name).Nodup ∧
      ∀ e ∈ firstEvents seen events, e.name ∉ seen := by
  induction events generalizing seen with
  | nil => simp [firstEvents]
  | cons e rest ih =>
    by_cases hseen : e.name ∈ seen
    · simpa [firstEvents, hseen] using ih seen
    · obtain ⟨hnodup, hnew⟩ := ih (e.name :: seen)
      simp only [firstEvents, List.contains_eq_mem, hseen, decide_false, Bool.false_eq_true,
        if_false, List.map_cons, List.nodup_cons, List.mem_map, List.mem_cons, not_exists, not_and]
      refine ⟨⟨fun x hx heq => hnew x hx (heq ▸ List.mem_cons_self), hnodup⟩, ?_⟩
      rintro x (rfl | hx)
      · exact hseen
      · exact fun h => hnew x hx (List.mem_cons_of_mem _ h)

/-- What becomes of the ownership of an event when a widget writes back a tick for it. -/
def rewrite (id : String) (known : Option Ownership) (exact : Option Nat) : Option Ownership :=
  match known, exact with
  | some o, some tick => if o.owner = id then some ⟨id, tick⟩ else some o
  | some o, none => some o
  | none, some tick => some ⟨id, tick⟩
  | none, none => none

theorem find?_recordTicks (id : String) (events : Table Ownership) {exact : List SyncEvent}
    (hnodup : (exact.map SyncEvent.name).Nodup) (event : String) :
    (recordTicks id events exact).find? event =
      rewrite id (events.find? event) (firstTick exact event) := by
  unfold recordTicks
  induction exact generalizing events with
  | nil => cases h : events.find? event <;> simp [firstTick, rewrite, h]
  | cons e rest ih =>
    obtain ⟨hnew, hrest⟩ := List.nodup_cons.1 hnodup
    rw [List.foldl_cons, ih _ hrest, firstTick_cons]
    have hlater : e.name = event → firstTick rest event = none := by
      rintro rfl
      exact firstTick_eq_none hnew
    by_cases heq : e.name = event
    · rw [hlater heq, if_pos heq]
      subst heq
      cases hk : events.find? e.name with
      | none => simp [rewrite]
      | some known =>
        by_cases ho : known.owner = id <;> simp [rewrite, ho, hk]
    · rw [if_neg heq]
      congr 1
      split
      · split
        · exact Table.find?_insert_ne _ _ (Ne.symm heq)
        · rfl
      · exact Table.find?_insert_ne _ _ (Ne.symm heq)

/-! ## One computation -/

def ticks (c : Coordinator H) : Table Nat := c.events.map Ownership.tick

theorem find?_ticks (c : Coordinator H) (event : String) :
    c.ticks.find? event = c.eventTick event := Table.find?_map _ _ _

/-- Another registered widget owns an event that a widget waits for. -/
def Awaits (c : Coordinator H) (id event owner : String) : Prop :=
  (c.waitsOf id).contains event = true ∧ c.eventOwner event = some owner ∧ owner ≠ id ∧
    c.widgets.contains owner = true

theorem Awaits.dependsOn {c : Coordinator H} {id event owner : String}
    (h : c.Awaits id event owner) : c.DependsOn id owner := dependsOn_iff.2 ⟨event, h⟩

variable [Handle H] {c : Coordinator H}

/-- A coordinator after the computation of a registered widget. -/
theorem value_compute {id : String} {h : H} (hid : c.widgets.find? id = some h) :
    (c.compute id).value =
      { c with
        widgets := c.widgets.insert id (Handle.compute h c.ticks).value.1
        events := recordTicks id c.events (firstEvents [] (Handle.compute h c.ticks).value.2)
        resolved := c.resolved.add id } := by
  simp only [compute, hid, Logged.value_bind, Logged.value_pure]
  rfl

theorem find?_events_compute {id : String} {h : H} (hid : c.widgets.find? id = some h)
    (event : String) :
    (c.compute id).value.events.find? event =
      rewrite id (c.events.find? event) (firstTick (Handle.compute h c.ticks).value.2 event) := by
  rw [value_compute hid]
  simp only
  rw [find?_recordTicks id c.events (nodup_firstEvents [] _).1, firstTick_firstEvents]
  simp

theorem eventOwner_compute {id : String} {h : H} (hid : c.widgets.find? id = some h)
    {event owner : String} (ho : c.eventOwner event = some owner) :
    (c.compute id).value.eventOwner event = some owner := by
  obtain ⟨known, hknown, rfl⟩ := Option.map_eq_some_iff.1 ho
  rw [eventOwner, find?_events_compute hid, hknown]
  cases firstTick (Handle.compute h c.ticks).value.2 event with
  | none => rfl
  | some tick =>
    simp only [rewrite]
    split
    · rename_i heq
      simp [heq]
    · rfl

/-- A computation leaves the events of other widgets alone. -/
theorem eventTick_compute_of_ne {id : String} {h : H} (hid : c.widgets.find? id = some h)
    {event owner : String} (ho : c.eventOwner event = some owner) (hne : owner ≠ id) :
    (c.compute id).value.eventTick event = c.eventTick event := by
  obtain ⟨known, hknown, rfl⟩ := Option.map_eq_some_iff.1 ho
  rw [eventTick, eventTick, find?_events_compute hid, hknown]
  cases firstTick (Handle.compute h c.ticks).value.2 event <;> simp [rewrite, hne]

/-- A computation replaces the tick of an event of the widget by the first one that it found. -/
theorem eventTick_compute_self {id : String} {h : H} (hid : c.widgets.find? id = some h)
    {event : String} (ho : c.eventOwner event = some id) :
    (c.compute id).value.eventTick event =
      (firstTick (Handle.compute h c.ticks).value.2 event).or (c.eventTick event) := by
  obtain ⟨known, hknown, rfl⟩ := Option.map_eq_some_iff.1 ho
  rw [eventTick, eventTick, find?_events_compute hid, hknown]
  cases firstTick (Handle.compute h c.ticks).value.2 event <;> simp [rewrite]

/-! ## A whole pass -/

/-- The state of a pass that started from `c` and has given each computed widget the ticks that
`given` says. -/
structure Tracks (c : Coordinator H) (given : String → Table Nat) (p : Pass H) : Prop where
  keys : p.coordinator.widgets.keys = c.widgets.keys
  waits : p.coordinator.waits = c.waits
  nodup : p.summary.computed.Nodup
  outdated : ∀ id ∈ p.summary.computed, id ∈ c.unresolved
  resolved : ∀ id, p.coordinator.isResolved id = true ↔
    c.isResolved id = true ∨ id ∈ p.summary.computed
  handles : ∀ id, p.coordinator.widgets.find? id = (c.widgets.find? id).map fun h =>
    if id ∈ p.summary.computed then (Handle.compute h (given id)).value.1 else h
  owner : ∀ event owner, c.eventOwner event = some owner →
    p.coordinator.eventOwner event = some owner
  unchanged : ∀ event owner, c.eventOwner event = some owner → owner ∉ p.summary.computed →
    p.coordinator.eventTick event = c.eventTick event
  exact : ∀ event owner h, c.eventOwner event = some owner → c.widgets.find? owner = some h →
    owner ∈ p.summary.computed → p.coordinator.eventTick event =
      (firstTick (Handle.compute h (given owner)).value.2 event).or (c.eventTick event)

namespace Tracks
variable {given : String → Table Nat} {p : Pass H}

theorem contains_iff (h : Tracks c given p) (id : String) :
    p.coordinator.widgets.contains id = true ↔ c.widgets.contains id = true := by
  rw [← Table.mem_keys, h.keys, Table.mem_keys]

theorem mem_unresolved_iff (h : Tracks c given p) (id : String) :
    id ∈ p.coordinator.unresolved ↔ id ∈ c.unresolved ∧ id ∉ p.summary.computed := by
  rw [mem_unresolved, mem_unresolved, h.contains_iff, ← Bool.not_eq_true, ← Bool.not_eq_true,
    h.resolved]
  tauto

/-- What has been computed and what is left are together what was out of date. -/
theorem length_unresolved (h : Tracks c given p) :
    p.summary.computed.length + p.coordinator.unresolved.length = c.unresolved.length := by
  have hnodup : (p.summary.computed ++ p.coordinator.unresolved).Nodup :=
    List.nodup_append.2 ⟨h.nodup, nodup_unresolved, fun x hx y hy heq =>
      ((h.mem_unresolved_iff y).1 hy).2 (heq ▸ hx)⟩
  have hperm : (p.summary.computed ++ p.coordinator.unresolved).Perm c.unresolved := by
    refine (List.perm_ext_iff_of_nodup hnodup nodup_unresolved).2 fun id => ?_
    rw [List.mem_append, h.mem_unresolved_iff]
    have := h.outdated id
    tauto
  rw [← List.length_append, hperm.length_eq]

theorem start (c : Coordinator H) (given : String → Table Nat) :
    Tracks c given ⟨c, ⟨[], [], 0⟩⟩ where
  keys := rfl
  waits := rfl
  nodup := List.nodup_nil
  outdated := by simp
  resolved := by simp
  handles := by simp
  owner := fun _ _ ho => ho
  unchanged := fun _ _ _ _ => rfl
  exact := by simp

/-- The pass after the computation of a widget that was out of date. -/
theorem compute (h : Tracks c given p) {id : String} (hid : id ∈ p.coordinator.unresolved) :
    Tracks c (Function.update given id p.coordinator.ticks) (p.compute id).value := by
  obtain ⟨hout, hnew⟩ := (h.mem_unresolved_iff id).1 hid
  obtain ⟨w, hw⟩ := (Table.contains_iff ..).1 (mem_unresolved.1 hid).1
  obtain ⟨w₀, hw₀⟩ := (Table.contains_iff ..).1 (mem_unresolved.1 hout).1
  -- a widget is not computed twice, so this one is still the one that the pass started with
  obtain rfl : w₀ = w := by simpa [h.handles id, hw₀, hnew] using hw
  have hvalue : (p.compute id).value =
      ⟨(p.coordinator.compute id).value,
        { p.summary with computed := p.summary.computed ++ [id] }⟩ := rfl
  have hwidgets := congrArg Coordinator.widgets (value_compute hw)
  have hresolved := congrArg Coordinator.resolved (value_compute hw)
  rw [hvalue]
  refine ⟨?_, ?_, ?_, ?_, ?_, ?_, ?_, ?_, ?_⟩
  · simp only [hwidgets]
    rw [Table.keys_insert_of_contains _ (mem_unresolved.1 hid).1, h.keys]
  · exact (congrArg Coordinator.waits (value_compute hw)).trans h.waits
  · refine List.nodup_append.2 ⟨h.nodup, by simp, fun x hx y hy heq => ?_⟩
    rw [List.mem_singleton.1 hy] at heq
    exact hnew (heq ▸ hx)
  · intro x hx
    rcases List.mem_append.1 hx with hx | hx
    · exact h.outdated x hx
    · rw [List.mem_singleton.1 hx]
      exact hout
  · intro x
    have hx := h.resolved x
    simp only [isResolved] at hx ⊢
    rw [hresolved, Table.contains_add, hx, List.mem_append, List.mem_singleton]
    tauto
  · intro x
    simp only [hwidgets, Table.find?_insert, List.mem_append, List.mem_singleton]
    by_cases hx : x = id
    · subst hx
      simp [hw₀]
    · simp [hx, h.handles x]
  · exact fun event owner ho => eventOwner_compute hw (h.owner event owner ho)
  · intro event owner ho hmem
    simp only [List.mem_append, List.mem_singleton, not_or] at hmem
    rw [eventTick_compute_of_ne hw (h.owner event owner ho) hmem.2]
    exact h.unchanged event owner ho hmem.1
  · intro event owner wo ho hwo hmem
    rcases List.mem_append.1 hmem with hmem | hmem
    · have hne : owner ≠ id := fun heq => hnew (heq ▸ hmem)
      rw [eventTick_compute_of_ne hw (h.owner event owner ho) hne, Function.update_of_ne hne]
      exact h.exact event owner wo ho hwo hmem
    · obtain rfl : owner = id := List.mem_singleton.1 hmem
      obtain rfl : wo = w₀ := Option.some.inj (hwo.symm.trans hw₀)
      rw [eventTick_compute_self hw (h.owner event owner ho), Function.update_self,
        h.unchanged event owner ho hnew]

end Tracks

def Unblocked (c : Coordinator H) (p : Pass H) (id : String) : Prop :=
  ∀ event owner, c.Awaits id event owner → p.coordinator.isResolved owner = true

def Informed (c : Coordinator H) (given : String → Table Nat) (p : Pass H) (id : String) : Prop :=
  ∀ event owner, c.Awaits id event owner →
    p.coordinator.isResolved owner = true ∧
      (given id).find? event = p.coordinator.eventTick event

namespace Tracks
variable {given : String → Table Nat} {p : Pass H}

theorem awaits (h : Tracks c given p) {id event owner : String} (ha : c.Awaits id event owner) :
    p.coordinator.Awaits id event owner := by
  obtain ⟨hwait, ho, hne, hreg⟩ := ha
  refine ⟨?_, h.owner event owner ho, hne, (h.contains_iff owner).2 hreg⟩
  rwa [waitsOf, h.waits]

theorem unblocked_of_isReady (h : Tracks c given p) {id : String}
    (hready : p.coordinator.isReady id = true) : Unblocked c p id :=
  fun _ _ ha => isReady_iff.1 hready _ (h.awaits ha).dependsOn

theorem isResolved_compute (h : Tracks c given p) {id other : String}
    (hid : id ∈ p.coordinator.unresolved) (ho : p.coordinator.isResolved other = true) :
    (p.compute id).value.coordinator.isResolved other = true := by
  refine ((h.compute hid).resolved other).2 (((h.resolved other).1 ho).imp_right fun hm => ?_)
  exact List.mem_append_left _ hm

/-- A widget that is up to date keeps the ticks of its events while others are computed. -/
theorem eventTick_compute (h : Tracks c given p) {id event owner : String}
    (hid : id ∈ p.coordinator.unresolved) (ho : c.eventOwner event = some owner)
    (hres : p.coordinator.isResolved owner = true) :
    (p.compute id).value.coordinator.eventTick event = p.coordinator.eventTick event := by
  obtain ⟨hreg, hout⟩ := mem_unresolved.1 hid
  obtain ⟨w, hw⟩ := (Table.contains_iff ..).1 hreg
  have hne : owner ≠ id := fun heq => by simp [heq, hout] at hres
  exact eventTick_compute_of_ne hw (h.owner event owner ho) hne

theorem informed_compute_of_ne (h : Tracks c given p) {id other : String}
    (hid : id ∈ p.coordinator.unresolved) (hne : other ≠ id) (hi : Informed c given p other) :
    Informed c (Function.update given id p.coordinator.ticks) (p.compute id).value other := by
  intro event owner ha
  obtain ⟨hres, htick⟩ := hi event owner ha
  refine ⟨h.isResolved_compute hid hres, ?_⟩
  rw [Function.update_of_ne hne, htick, h.eventTick_compute hid ha.2.1 hres]

theorem informed_compute_self (h : Tracks c given p) {id : String}
    (hid : id ∈ p.coordinator.unresolved) (hu : Unblocked c p id) :
    Informed c (Function.update given id p.coordinator.ticks) (p.compute id).value id := by
  intro event owner ha
  have hres := hu event owner ha
  refine ⟨h.isResolved_compute hid hres, ?_⟩
  rw [Function.update_self, find?_ticks, h.eventTick_compute hid ha.2.1 hres]

end Tracks
end Choreography.Coordinator
