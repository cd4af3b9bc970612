import Choreography.Proofs.Histories
import Mathlib.Data.List.Nodup

/-! # Registering widgets one after the other

What one registration sets and what the later ones leave alone, and from it what a coordinator
knows when every widget has been registered once. -/
namespace Choreography.Coordinator
variable {H : Type}

/-! ### Events and waits of one widget -/

/-- A widget becomes the owner of all events that it brings. -/
theorem eventOwner_registerEvents (id : String) (c : Coordinator H) (events : List SyncEvent)
    (event : String) :
    (registerEvents id c events).value.eventOwner event =
      if event ∈ events.map SyncEvent.name then some id else c.eventOwner event := by
  induction events generalizing c with
  | nil => rfl
  | cons e rest ih =>
    have hstep : (registerEvents id c (e :: rest)).value =
        (registerEvents id (c.own id e.name e.tick) rest).value := rfl
    have hown : (c.own id e.name e.tick).eventOwner event =
        if event = e.name then some id else c.eventOwner event := by
      rw [eventOwner, own, Table.find?_insert]
      split <;> rfl
    rw [hstep, ih, hown, List.map_cons]
    by_cases hrest : event ∈ rest.map SyncEvent.name <;> by_cases he : event = e.name <;>
      simp [hrest, he]

theorem eventTick_registerEvents (id : String) (c : Coordinator H) {events : List SyncEvent}
    {event : String} (h : event ∉ events.map SyncEvent.name) :
    (registerEvents id c events).value.eventTick event = c.eventTick event := by
  induction events generalizing c with
  | nil => rfl
  | cons e rest ih =>
    rw [List.map_cons, List.mem_cons, not_or] at h
    have hstep : (registerEvents id c (e :: rest)).value =
        (registerEvents id (c.own id e.name e.tick) rest).value := rfl
    rw [hstep, ih _ h.2, eventTick, own, Table.find?_insert_ne _ _ h.1]
    rfl

theorem mem_names_firstEvents (seen : List String) (events : List SyncEvent) (event : String) :
    event ∈ (firstEvents seen events).map SyncEvent.name ↔
      event ∈ events.map SyncEvent.name ∧ event ∉ seen := by
  induction events generalizing seen with
  | nil => simp [firstEvents]
  | cons e rest ih =>
    simp only [firstEvents, List.contains_eq_mem, decide_eq_true_eq]
    split
    · rename_i hseen
      rw [ih, List.map_cons, List.mem_cons]
      constructor
      · exact fun h => ⟨.inr h.1, h.2⟩
      · rintro ⟨rfl | h, hnew⟩
        · exact absurd hseen hnew
        · exact ⟨h, hnew⟩
    · rename_i hseen
      rw [List.map_cons, List.mem_cons, ih, List.map_cons, List.mem_cons, List.mem_cons]
      constructor
      · rintro (rfl | ⟨h, hnew⟩)
        · exact ⟨.inl rfl, hseen⟩
        · exact ⟨.inr h, fun hs => hnew (.inr hs)⟩
      · rintro ⟨rfl | h, hnew⟩
        · exact .inl rfl
        · by_cases he : event = e.name
          · exact .inl he
          · exact .inr ⟨h, fun hs => hs.elim he hnew⟩

theorem waitsOf_registerWaits (c : Coordinator H) (id : String) (events : List String)
    (other event : String) :
    ((c.registerWaits id events).waitsOf other).contains event = true ↔
      (other = id ∧ event ∈ events) ∨ (c.waitsOf other).contains event = true := by
  unfold registerWaits
  induction events generalizing c with
  | nil => simp
  | cons e rest ih =>
    have hwait : ((c.registerWait id e).waitsOf other).contains event = true ↔
        (other = id ∧ event = e) ∨ (c.waitsOf other).contains event = true := by
      simp only [waitsOf, registerWait, Table.find?_insert]
      split
      · rename_i h
        subst h
        rw [Option.getD_some, Table.contains_add]
        simp
      · rename_i h
        simp [h]
    rw [List.foldl_cons, ih, hwait, List.mem_cons]
    tauto

/-! ### One registration -/

variable [Handle H]

def declares (w : H) : List String := (Handle.syncEvents w).value.map SyncEvent.name

theorem find?_widgets_register (c : Coordinator H) (id : String) (w : H) (other : String) :
    (c.register id w).value.widgets.find? other =
      if other = id then some w else c.widgets.find? other := by
  rw [value_register]
  change (Table.insert _ id w).find? other = _
  rw [Table.find?_insert, widgets_registerWaits, widgets_registerEvents]

theorem isResolved_register_iff (c : Coordinator H) (id : String) (w : H) (other : String) :
    (c.register id w).value.isResolved other = true ↔
      other ≠ id ∧ c.isResolved other = true := by
  rw [value_register]
  change (Table.erase _ id).contains other = true ↔ _
  rw [Table.contains_erase, resolved_registerWaits, resolved_registerEvents]
  rfl

theorem isResolved_register (c : Coordinator H) (id : String) (w : H) {other : String}
    (h : c.isResolved other = false) : (c.register id w).value.isResolved other = false := by
  refine Bool.eq_false_iff.mpr fun hres => ?_
  have hbefore := ((isResolved_register_iff c id w other).mp hres).2
  rw [h] at hbefore
  cases hbefore

theorem eventOwner_register (c : Coordinator H) (id : String) (w : H) (event : String) :
    (c.register id w).value.eventOwner event =
      if event ∈ declares w then some id else c.eventOwner event := by
  rw [value_register]
  change (Coordinator.registerWaits _ id _).eventOwner event = _
  rw [eventOwner, events_registerWaits]
  change (registerEvents id c _).value.eventOwner event = _
  rw [eventOwner_registerEvents]
  simp only [mem_names_firstEvents, List.not_mem_nil, not_false_eq_true, and_true]
  rfl

/-- The events that a widget does not bring keep their ticks. -/
theorem eventTick_register (c : Coordinator H) (id : String) {w : H} {event : String}
    (h : event ∉ declares w) : (c.register id w).value.eventTick event = c.eventTick event := by
  rw [value_register]
  change (Coordinator.registerWaits _ id _).eventTick event = _
  rw [eventTick, events_registerWaits]
  refine eventTick_registerEvents id c fun hmem => h ?_
  exact ((mem_names_firstEvents _ _ _).mp hmem).1

theorem waitsOf_register (c : Coordinator H) (id : String) (w : H) (other event : String) :
    ((c.register id w).value.waitsOf other).contains event = true ↔
      (other = id ∧ (Handle.waitingFor w).value.contains event = true) ∨
        (c.waitsOf other).contains event = true := by
  rw [value_register]
  change ((Coordinator.registerWaits _ id _).waitsOf other).contains event = true ↔ _
  rw [waitsOf_registerWaits, Table.mem_keys]
  simp only [waitsOf, waits_registerEvents]

/-! ### All registrations -/

/-- What every registration keeps, all of them together keep. -/
theorem kept_registerEach {P : Coordinator H → Prop} {entries : List (String × H)}
    (hP : ∀ entry ∈ entries, ∀ c, P c → P (c.register entry.1 entry.2).value) {c : Coordinator H}
    (hc : P c) : P (c.registerEach entries).value := by
  induction entries generalizing c with
  | nil => exact hc
  | cons entry rest ih =>
    have hfirst := hP entry List.mem_cons_self c hc
    exact ih (fun x hx => hP x (List.mem_cons_of_mem _ hx)) hfirst

/-- What one of the registrations sets and the others keep is so in the end. -/
theorem set_registerEach {P : Coordinator H → Prop} {entries : List (String × H)}
    {id : String} {w : H} (hmem : (id, w) ∈ entries)
    (hset : ∀ c : Coordinator H, P (c.register id w).value)
    (hP : ∀ entry ∈ entries, entry ≠ (id, w) → ∀ c, P c → P (c.register entry.1 entry.2).value)
    (c : Coordinator H) : P (c.registerEach entries).value := by
  have hkept : ∀ entry ∈ entries, ∀ c, P c → P (c.register entry.1 entry.2).value := by
    intro entry hentry c hc
    by_cases heq : entry = (id, w)
    · rw [heq]
      exact hset c
    · exact hP entry hentry heq c hc
  induction entries generalizing c with
  | nil => cases hmem
  | cons entry rest ih =>
    have hlater : ∀ x ∈ rest, ∀ c, P c → P (c.register x.1 x.2).value :=
      fun x hx => hkept x (List.mem_cons_of_mem _ hx)
    rcases List.mem_cons.mp hmem with rfl | hrest
    · exact kept_registerEach hlater (hset c)
    · exact ih hrest (fun x hx => hP x (List.mem_cons_of_mem _ hx)) _ hlater

omit [Handle H] in
/-- Entries of different widgets have different names. -/
theorem ne_of_nodup {entries : List (String × H)} (hnodup : (entries.map Prod.fst).Nodup)
    {x y : String × H} (hx : x ∈ entries) (hy : y ∈ entries) (hne : x ≠ y) : x.1 ≠ y.1 :=
  fun heq => hne (List.inj_on_of_nodup_map hnodup hx hy heq)

section
variable {entries : List (String × H)} {id : String} {w : H}

theorem find?_registerEach (hnodup : (entries.map Prod.fst).Nodup) (hmem : (id, w) ∈ entries)
    (c : Coordinator H) : (c.registerEach entries).value.widgets.find? id = some w := by
  refine set_registerEach (P := fun c : Coordinator H => c.widgets.find? id = some w) hmem (fun c => ?_)
    (fun entry hentry hne c hc => ?_) c
  · rw [find?_widgets_register, if_pos rfl]
  · have hid : id ≠ entry.1 := (ne_of_nodup hnodup hentry hmem hne).symm
    rw [find?_widgets_register, if_neg hid]
    exact hc

theorem isResolved_registerEach (c : Coordinator H) (h : c.isResolved id = false) :
    (c.registerEach entries).value.isResolved id = false :=
  kept_registerEach (P := fun c : Coordinator H => c.isResolved id = false)
    (fun entry _ c hc => isResolved_register c entry.1 entry.2 hc) h

theorem waitsOf_registerEach {event : String} (hmem : (id, w) ∈ entries)
    (hwaits : (Handle.waitingFor w).value.contains event = true) (c : Coordinator H) :
    ((c.registerEach entries).value.waitsOf id).contains event = true :=
  set_registerEach (P := fun c : Coordinator H => (c.waitsOf id).contains event = true) hmem
    (fun c => (waitsOf_register c id w id event).mpr (.inl ⟨rfl, hwaits⟩))
    (fun entry _ _ c hc => (waitsOf_register c entry.1 entry.2 id event).mpr (.inr hc)) c

/-- An event belongs to the one widget that brings it. -/
theorem eventOwner_registerEach {event : String} (hmem : (id, w) ∈ entries)
    (hdeclares : event ∈ declares w)
    (honly : ∀ entry ∈ entries, entry ≠ (id, w) → event ∉ declares entry.2) (c : Coordinator H) :
    (c.registerEach entries).value.eventOwner event = some id := by
  refine set_registerEach (P := fun c : Coordinator H => c.eventOwner event = some id) hmem (fun c => ?_)
    (fun entry hentry hne c hc => ?_) c
  · rw [eventOwner_register, if_pos hdeclares]
  · rw [eventOwner_register, if_neg (honly entry hentry hne)]
    exact hc

/-! ### Nothing else is registered -/

theorem mem_of_find?_registerEach (settings : CoordinatorSettings)
    (h : ((empty settings).registerEach entries).value.widgets.find? id = some w) :
    (id, w) ∈ entries := by
  refine kept_registerEach (P := fun c : Coordinator H => ∀ id w, c.widgets.find? id = some w →
    (id, w) ∈ entries) (fun entry hentry c hc id w hw => ?_) (fun id w hw => by cases hw) id w h
  rw [find?_widgets_register] at hw
  split at hw
  · rename_i hid
    cases hw
    exact hid ▸ hentry
  · exact hc id w hw

theorem exists_mem_of_waitsOf_registerEach (settings : CoordinatorSettings) {event : String}
    (h : (((empty settings).registerEach entries).value.waitsOf id).contains event = true) :
    ∃ w, (id, w) ∈ entries ∧ (Handle.waitingFor w).value.contains event = true := by
  refine kept_registerEach (P := fun c : Coordinator H => (c.waitsOf id).contains event = true →
    ∃ w, (id, w) ∈ entries ∧ (Handle.waitingFor w).value.contains event = true)
    (fun entry hentry c hc hwait => ?_) (fun hwait => by cases hwait) h
  rw [waitsOf_register] at hwait
  rcases hwait with ⟨hid, hwait⟩ | hwait
  · exact ⟨entry.2, hid ▸ hentry, hwait⟩
  · exact hc hwait

theorem exists_mem_of_eventOwner_registerEach (settings : CoordinatorSettings) {event : String}
    (h : ((empty settings).registerEach entries).value.eventOwner event = some id) :
    ∃ w, (id, w) ∈ entries ∧ event ∈ declares w := by
  refine kept_registerEach (P := fun c : Coordinator H => c.eventOwner event = some id →
    ∃ w, (id, w) ∈ entries ∧ event ∈ declares w)
    (fun entry hentry c hc ho => ?_) (fun ho => by cases ho) h
  rw [eventOwner_register] at ho
  split at ho
  · rename_i hdeclares
    cases ho
    exact ⟨entry.2, hentry, hdeclares⟩
  · exact hc ho

end
end Choreography.Coordinator
