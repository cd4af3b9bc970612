import Choreography.Scene
import Choreography.Proofs.Freshness

/-! # The order of registrations

A registration writes to four tables. What it writes under a key depends on nothing but the widget
and what was there under that key, so widgets that share neither a name nor an event may be
registered in any order. -/
namespace Choreography
namespace Coordinator
variable {H : Type}

theorem eq_of_tables {c c' : Coordinator H} (hwidgets : c.widgets = c'.widgets)
    (hevents : c.events = c'.events) (hwaits : c.waits = c'.waits)
    (hresolved : c.resolved = c'.resolved) (hfactor : c.factor = c'.factor) : c = c' := by
  cases c
  cases c'
  cases hwidgets
  cases hevents
  cases hwaits
  cases hresolved
  cases hfactor
  rfl

/-! ### What a registration writes -/

/-- The first tick that a widget brings for an event is the one that is recorded. -/
theorem find?_events_registerEvents (id : String) (c : Coordinator H) {events : List SyncEvent}
    (hnodup : (events.map SyncEvent.name).Nodup) (event : String) :
    (registerEvents id c events).value.events.find? event =
      ((firstTick events event).map (Ownership.mk id)).or (c.events.find? event) := by
  induction events generalizing c with
  | nil => rfl
  | cons e rest ih =>
    obtain ⟨hnew, hrest⟩ := List.nodup_cons.1 hnodup
    have hstep : (registerEvents id c (e :: rest)).value =
        (registerEvents id (c.own id e.name e.tick) rest).value := rfl
    rw [hstep, ih _ hrest, firstTick_cons, own, Table.find?_insert]
    by_cases heq : e.name = event
    · subst heq
      simp [firstTick_eq_none hnew]
    · simp [heq, Ne.symm heq]

def withWait (known : Option (Table Unit)) (event : String) : Option (Table Unit) :=
  some ((known.getD ∅).add event)

theorem find?_waits_registerWaits (c : Coordinator H) (id : String) (events : List String)
    (other : String) :
    (c.registerWaits id events).waits.find? other =
      if other = id then events.foldl withWait (c.waits.find? id) else c.waits.find? other := by
  unfold registerWaits
  induction events generalizing c with
  | nil =>
    split
    · rename_i h
      rw [h]
      rfl
    · rfl
  | cons e rest ih =>
    rw [List.foldl_cons, ih, registerWait]
    split
    · simp only [Table.find?_insert_self]
      rfl
    · rename_i h
      exact Table.find?_insert_ne _ _ h

variable [Handle H]

theorem find?_events_register (c : Coordinator H) (id : String) (w : H) (event : String) :
    (c.register id w).value.events.find? event =
      ((firstTick (Handle.syncEvents w).value event).map (Ownership.mk id)).or
        (c.events.find? event) := by
  rw [value_register]
  change (Coordinator.registerWaits _ id _).events.find? event = _
  rw [events_registerWaits, find?_events_registerEvents id c (nodup_firstEvents [] _).1,
    firstTick_firstEvents, if_neg List.not_mem_nil]

theorem find?_waits_register (c : Coordinator H) (id : String) (w : H) (other : String) :
    (c.register id w).value.waits.find? other =
      if other = id then (Handle.waitingFor w).value.keys.foldl withWait (c.waits.find? id)
      else c.waits.find? other := by
  rw [value_register]
  change (Coordinator.registerWaits _ id _).waits.find? other = _
  rw [find?_waits_registerWaits, waits_registerEvents]

theorem resolved_register (c : Coordinator H) (id : String) (w : H) :
    (c.register id w).value.resolved = c.resolved.erase id := by
  rw [value_register]
  change Table.erase (Coordinator.registerWaits _ id _).resolved id = _
  rw [resolved_registerWaits, resolved_registerEvents]

/-! ### Two registrations -/

/-- Widgets that share neither a name nor an event are registered in either order. -/
theorem register_comm {id other : String} {w w' : H} (hid : id ≠ other)
    (hevents : ∀ event ∈ declares w, event ∉ declares w') (c : Coordinator H) :
    ((c.register id w).value.register other w').value =
      ((c.register other w').value.register id w).value := by
  apply eq_of_tables
  · apply Table.ext_find?
    intro key
    simp only [find?_widgets_register]
    by_cases hkey : key = id
    · simp [hkey, hid]
    · simp [hkey]
  · apply Table.ext_find?
    intro event
    simp only [find?_events_register]
    by_cases hmem : event ∈ declares w
    · rw [firstTick_eq_none (hevents event hmem)]
      rfl
    · rw [firstTick_eq_none hmem]
      rfl
  · apply Table.ext_find?
    intro key
    simp only [find?_waits_register, if_neg hid, if_neg (Ne.symm hid)]
    by_cases hkey : key = id
    · simp [hkey, hid]
    · simp [hkey]
  · apply Table.ext_find?
    intro key
    simp only [resolved_register, Table.find?_erase]
    split <;> split <;> rfl
  · simp only [factor_register]

/-! ### All registrations -/

structure Separate (entries : List (String × H)) : Prop where
  nodup : (entries.map Prod.fst).Nodup
  disjoint : ∀ x ∈ entries, ∀ y ∈ entries, x.1 ≠ y.1 → ∀ event ∈ declares x.2, event ∉ declares y.2

theorem value_registerEach (c : Coordinator H) (entries : List (String × H)) :
    (c.registerEach entries).value =
      entries.foldl (fun c entry => (c.register entry.1 entry.2).value) c := by
  induction entries generalizing c with
  | nil => rfl
  | cons entry rest ih => exact ih _

theorem Separate.comm {entries : List (String × H)} (h : Separate entries) {x y : String × H}
    (hx : x ∈ entries) (hy : y ∈ entries) (c : Coordinator H) :
    ((c.register x.1 x.2).value.register y.1 y.2).value =
      ((c.register y.1 y.2).value.register x.1 x.2).value := by
  by_cases heq : x = y
  · rw [heq]
  · have hne := ne_of_nodup h.nodup hx hy heq
    exact register_comm hne (h.disjoint x hx y hy hne) c

/-- A coordinator does not tell in which order separate widgets were registered. -/
theorem registerEach_of_perm {entries entries' : List (String × H)} (h : Separate entries)
    (hperm : entries'.Perm entries) (c : Coordinator H) :
    (c.registerEach entries').value = (c.registerEach entries).value := by
  rw [value_registerEach, value_registerEach]
  have hcomm : ∀ x ∈ entries', ∀ y ∈ entries', ∀ c : Coordinator H,
      ((c.register x.1 x.2).value.register y.1 y.2).value =
        ((c.register y.1 y.2).value.register x.1 x.2).value :=
    fun x hx y hy => h.comm (hperm.subset hx) (hperm.subset hy)
  exact hperm.foldl_eq' hcomm c

def timelineAfter (c : Coordinator AnimatedWidget) (id : String) : Option Timeline :=
  (c.resolve.value.1.widgets.find? id).bind AnimatedWidget.timeline

end Coordinator

def Scene.entries (s : Scene) (settings : Settings) : List (String × AnimatedWidget) :=
  s.widgets.map fun w => (w.id, w.animated settings.engine)

namespace Coordinator

/-- The order in which separate widgets are registered does not matter, whatever the coordinator
knew before: it knows the same after that, and a pass computes the same widgets in the same rounds,
gives each of them the same ticks and leaves the same behind. In a scene the order of the widgets
changes the timeline of none of them. -/
theorem registration_order_irrelevant :
    (∀ {H : Type} [Handle H] (c : Coordinator H) {entries entries' : List (String × H)},
      Separate entries → entries'.Perm entries →
        (c.registerEach entries').value = (c.registerEach entries).value ∧
        (c.registerEach entries').value.resolve.value =
          (c.registerEach entries).value.resolve.value ∧
        ∀ id, (c.registerEach entries').value.givenBy id .resolve =
          (c.registerEach entries).value.givenBy id .resolve) ∧
    ∀ (settings : Settings) {s s' : Scene}, Separate (s.entries settings) →
      s'.widgets.Perm s.widgets →
        ∀ id, (s'.coordinator settings).value.timelineAfter id =
          (s.coordinator settings).value.timelineAfter id := by
  refine ⟨fun c entries entries' hseparate hperm => ?_, fun settings s s' hseparate hperm id => ?_⟩
  · have hsame := registerEach_of_perm hseparate hperm c
    rw [hsame]
    exact ⟨rfl, rfl, fun id => rfl⟩
  · have hentries : (s'.entries settings).Perm (s.entries settings) := hperm.map _
    have hsame : (s'.coordinator settings).value = (s.coordinator settings).value :=
      registerEach_of_perm hseparate hentries _
    rw [hsame]

def bells : Scene where
  widgets := [
    ⟨"b", 1, 1, ⟨9, 9⟩, .plain 0 0, ∅, [.waitFor "ring" (.int 9)]⟩,
    ⟨"a", 1, 1, ⟨9, 9⟩, .plain 0 0, ∅, [.pause (.int 2), .sync "ring", .sync "ring"]⟩]

theorem registration_order_irrelevant_bells :
    Separate [("b", responder), ("a", caller)] ∧ Separate (bells.entries {}) ∧
      (trio.registerEach [("a", caller), ("b", responder)]).value =
        (trio.registerEach [("b", responder), ("a", caller)]).value ∧
      ∀ id, ((Scene.mk bells.widgets.reverse).coordinator {}).value.timelineAfter id =
        (bells.coordinator {}).value.timelineAfter id := by
  have hcall : Separate [("b", responder), ("a", caller)] := ⟨by decide, by decide⟩
  have hbells : Separate (bells.entries {}) := ⟨by decide, by decide⟩
  obtain ⟨hregister, hscene⟩ := registration_order_irrelevant
  obtain ⟨hsame, -, -⟩ := hregister trio hcall (.swap _ _ _)
  exact ⟨hcall, hbells, hsame, hscene {} hbells (List.reverse_perm _)⟩

end Coordinator
end Choreography
