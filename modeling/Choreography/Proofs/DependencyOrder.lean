import Choreography.Proofs.Registration

/-! # Dependencies come first

A pass computes widgets one after the other. As long as no computation brings an event that nobody
owns, the dependencies stay as they are: a widget comes after all that it depends on unless it is
forced. As long as the rounds suffice, one is forced only to break a cycle. -/
namespace Choreography.Coordinator
variable {H : Type} [Handle H] {c : Coordinator H} {given : String → Table Nat} {p : Pass H}

/-! ### One widget after the other -/

def afterEach (c : Coordinator H) (ids : List String) : Coordinator H :=
  ids.foldl (fun c id => (c.compute id).value) c

theorem afterEach_concat (c : Coordinator H) (ids : List String) (id : String) :
    c.afterEach (ids ++ [id]) = ((c.afterEach ids).compute id).value := by
  rw [afterEach, List.foldl_append]
  rfl

theorem factor_afterEach (c : Coordinator H) (ids : List String) :
    (c.afterEach ids).factor = c.factor := by
  induction ids generalizing c with
  | nil => rfl
  | cons id rest ih =>
    refine (ih (c.compute id).value).trans ?_
    unfold Coordinator.compute
    split <;> rfl

theorem nodup_concat {ids : List String} {id : String} (h : (ids ++ [id]).Nodup) :
    ids.Nodup ∧ id ∉ ids := by
  obtain ⟨hids, -, hdisjoint⟩ := List.nodup_append.1 h
  exact ⟨hids, fun hid => hdisjoint id hid id (List.mem_singleton_self id) rfl⟩

theorem exists_tracks_afterEach {ids : List String} (hnodup : ids.Nodup)
    (hids : ∀ id ∈ ids, id ∈ c.unresolved) :
    ∃ given, Tracks c given ⟨c.afterEach ids, ⟨ids, [], 0⟩⟩ := by
  induction ids using List.reverseRecOn with
  | nil => exact ⟨fun _ => ∅, Tracks.start c _⟩
  | append_singleton ids id ih =>
    obtain ⟨hbefore, hnew⟩ := nodup_concat hnodup
    obtain ⟨given, htracks⟩ := ih hbefore fun x hx => hids x (List.mem_append_left _ hx)
    have hout : id ∈ c.unresolved := hids id List.mem_concat_self
    have hnext := htracks.compute ((htracks.mem_unresolved_iff id).2 ⟨hout, hnew⟩)
    rw [afterEach_concat]
    exact ⟨_, hnext⟩

/-- A beginning of a longer list is the whole of it or a beginning of the list before. -/
theorem initial_concat_cases {α : Type} {before list : List α} {x last : α}
    (h : before ++ [x] <+: list ++ [last]) :
    (before = list ∧ x = last) ∨ before ++ [x] <+: list := by
  rcases List.prefix_concat_iff.1 h with h | h
  · obtain ⟨hbefore, hlast⟩ := List.append_inj' h rfl
    exact .inl ⟨hbefore, List.singleton_inj.1 hlast⟩
  · exact .inr h

theorem mem_of_initial {before ids : List String} {id : String} (h : before ++ [id] <+: ids) :
    id ∈ ids := h.subset List.mem_concat_self

theorem exists_initial {ids : List String} {id : String} (h : id ∈ ids) :
    ∃ before, before ++ [id] <+: ids := by
  obtain ⟨before, after, rfl⟩ := List.append_of_mem h
  exact ⟨before, after, by simp⟩

/-- A pass in order: each widget was given the ticks that were known when it was its turn, and came
after all that it depends on if it was not forced. -/
structure Sequenced (c : Coordinator H) (given : String → Table Nat) (p : Pass H) : Prop where
  sound : Sound c given p
  replayed : p.coordinator = c.afterEach p.summary.computed
  given_eq : ∀ before id, before ++ [id] <+: p.summary.computed →
    given id = (c.afterEach before).ticks
  supplied : ∀ before id, before ++ [id] <+: p.summary.computed → id ∉ p.summary.forced →
    ∀ owner, c.DependsOn id owner → c.isResolved owner = true ∨ owner ∈ before

namespace Sequenced

theorem start (c : Coordinator H) : Sequenced c (fun _ => ∅) ⟨c, ⟨[], [], 0⟩⟩ where
  sound := Sound.start c
  replayed := rfl
  given_eq _ _ h := absurd (mem_of_initial h) List.not_mem_nil
  supplied _ _ h := absurd (mem_of_initial h) List.not_mem_nil

theorem replayed_compute (h : Sequenced c given p) (id : String) :
    (p.coordinator.compute id).value = c.afterEach (p.summary.computed ++ [id]) := by
  rw [afterEach_concat, ← h.replayed]

theorem not_mem_computed (h : Sequenced c given p) {id : String}
    (hid : id ∈ p.coordinator.unresolved) : id ∉ p.summary.computed :=
  ((h.sound.tracks.mem_unresolved_iff id).1 hid).2

theorem given_eq_compute (h : Sequenced c given p) {id : String}
    (hid : id ∈ p.coordinator.unresolved) {before : List String} {x : String}
    (hx : before ++ [x] <+: p.summary.computed ++ [id]) :
    Function.update given id p.coordinator.ticks x = (c.afterEach before).ticks := by
  rcases initial_concat_cases hx with ⟨rfl, rfl⟩ | hearlier
  · rw [Function.update_self, h.replayed]
  · have hne : x ≠ id := by
      rintro rfl
      exact h.not_mem_computed hid (mem_of_initial hearlier)
    rw [Function.update_of_ne hne]
    exact h.given_eq before x hearlier

theorem compute (h : Sequenced c given p) {id : String} (hid : id ∈ p.coordinator.unresolved)
    (hu : Unblocked c p id) :
    Sequenced c (Function.update given id p.coordinator.ticks) (p.compute id).value where
  sound := h.sound.compute hid hu
  replayed := h.replayed_compute id
  given_eq _ _ hx := h.given_eq_compute hid hx
  supplied := by
    intro before x hx hforced owner howner
    rcases initial_concat_cases hx with ⟨rfl, rfl⟩ | hx
    · obtain ⟨event, hawaits⟩ := dependsOn_iff.1 howner
      exact (h.sound.tracks.resolved owner).1 (hu event owner hawaits)
    · exact h.supplied before x hx hforced owner howner

theorem force (h : Sequenced c given p) {id : String} (hid : id ∈ p.coordinator.unresolved) :
    Sequenced c (Function.update given id p.coordinator.ticks) (p.force id).value := by
  refine ⟨h.sound.force hid, h.replayed_compute id, fun _ _ hx => h.given_eq_compute hid hx, ?_⟩
  intro before x hx hforced owner howner
  have hx' : x ∉ p.summary.forced ∧ x ∉ [id] :=
    not_or.1 fun hor => hforced (List.mem_append.2 hor)
  rcases initial_concat_cases hx with ⟨-, rfl⟩ | hx
  · exact absurd (List.mem_singleton_self x) hx'.2
  · exact h.supplied before x hx hx'.1 owner howner

theorem count (h : Sequenced c given p) : Sequenced c given p.count :=
  ⟨h.sound.count, h.replayed, h.given_eq, h.supplied⟩

end Sequenced

theorem lasting_sequenced (c : Coordinator H) : Lasting c (Sequenced c) where
  tracks h := h.sound.tracks
  count h := h.count
  compute h hid hu := h.compute hid hu
  force h hcycle hid := h.force (hcycle.outdated _ hid)
  exhaust h hid := h.force hid

theorem exists_sequenced_resolve (c : Coordinator H) :
    ∃ given, Sequenced c given ⟨c.resolve.value.1, c.resolve.value.2⟩ := by
  obtain ⟨given, hsequenced, -⟩ := (lasting_sequenced c).resolve (Sequenced.start c)
  exact ⟨given, hsequenced⟩

structure Breaking (c : Coordinator H) (given : String → Table Nat) (p : Pass H) : Prop
    extends Sequenced c given p where
  cyclic : ∀ before id, before ++ [id] <+: p.summary.computed → id ∈ p.summary.forced →
    ∃ cycle, (c.afterEach before).IsCycle cycle ∧ id ∈ cycle

namespace Breaking

theorem start (c : Coordinator H) : Breaking c (fun _ => ∅) ⟨c, ⟨[], [], 0⟩⟩ :=
  ⟨Sequenced.start c, fun _ _ h => absurd (mem_of_initial h) List.not_mem_nil⟩

theorem compute (h : Breaking c given p) {id : String} (hid : id ∈ p.coordinator.unresolved)
    (hu : Unblocked c p id) :
    Breaking c (Function.update given id p.coordinator.ticks) (p.compute id).value := by
  refine ⟨h.toSequenced.compute hid hu, fun before x hx hforced => ?_⟩
  rcases initial_concat_cases hx with ⟨rfl, rfl⟩ | hx
  · exact absurd (h.sound.forced x hforced) (h.not_mem_computed hid)
  · exact h.cyclic before x hx hforced

theorem force (h : Breaking c given p) {id : String} {cycle : List String}
    (hcycle : p.coordinator.IsCycle cycle) (hid : id ∈ cycle) :
    Breaking c (Function.update given id p.coordinator.ticks) (p.force id).value := by
  have hout := hcycle.outdated id hid
  refine ⟨h.toSequenced.force hout, fun before x hx hforced => ?_⟩
  rcases initial_concat_cases hx with ⟨rfl, rfl⟩ | hx
  · rw [← h.replayed]
    exact ⟨cycle, hcycle, hid⟩
  · have hne : x ∉ [id] := by
      intro hmem
      rw [List.mem_singleton.1 hmem] at hx
      exact h.not_mem_computed hout (mem_of_initial hx)
    exact h.cyclic before x hx ((List.mem_append.1 hforced).resolve_right hne)

end Breaking

theorem kept_breaking (c : Coordinator H) : Kept c (Breaking c) where
  tracks h := h.sound.tracks
  count h := ⟨h.toSequenced.count, h.cyclic⟩
  compute h hid hu := h.compute hid hu
  force h hcycle hid := h.force hcycle hid

theorem exists_breaking_resolve (hover : c.lastRound.coordinator.unresolved = []) :
    ∃ given, Breaking c given ⟨c.resolve.value.1, c.resolve.value.2⟩ :=
  (kept_breaking c).resolve (Breaking.start c) hover

/-! ### Computations that bring no new events -/

/-- Computing a widget that is out of date, with ticks for the events that are owned, brings no
event that nobody owns. -/
def Familiar (c : Coordinator H) : Prop :=
  ∀ id ∈ c.unresolved, ∀ w, c.widgets.find? id = some w → ∀ ticks : Table Nat,
    (∀ event, ticks.contains event = c.events.contains event) →
      ∀ e ∈ (Handle.compute w ticks).value.2, c.events.contains e.name = true

omit [Handle H] in
theorem contains_events (c : Coordinator H) (event : String) :
    c.events.contains event = (c.eventOwner event).isSome := by
  rw [eventOwner, Option.isSome_map]
  rfl

omit [Handle H] in
theorem contains_ticks (c : Coordinator H) (event : String) :
    c.ticks.contains event = (c.eventOwner event).isSome := by
  rw [← contains_events, Table.contains, find?_ticks, eventTick, Option.isSome_map]
  rfl

theorem eventOwner_compute_of_known {id : String} {w : H} (hw : c.widgets.find? id = some w)
    (hknown : ∀ e ∈ (Handle.compute w c.ticks).value.2, (c.eventOwner e.name).isSome = true)
    (event : String) : (c.compute id).value.eventOwner event = c.eventOwner event := by
  cases ho : c.eventOwner event with
  | some owner => exact eventOwner_compute hw ho
  | none =>
    have hfind : c.events.find? event = none := Option.map_eq_none_iff.1 ho
    have hnew : event ∉ (Handle.compute w c.ticks).value.2.map SyncEvent.name := by
      intro hmem
      obtain ⟨e, he, rfl⟩ := List.mem_map.1 hmem
      have hsome := hknown e he
      rw [ho] at hsome
      cases hsome
    rw [eventOwner, find?_events_compute hw, hfind, firstTick_eq_none hnew]
    rfl

section
variable {ids : List String}

theorem eventOwner_afterEach (hc : c.Familiar) (hnodup : ids.Nodup)
    (hids : ∀ id ∈ ids, id ∈ c.unresolved) (event : String) :
    (c.afterEach ids).eventOwner event = c.eventOwner event := by
  induction ids using List.reverseRecOn generalizing event with
  | nil => rfl
  | append_singleton ids id ih =>
    obtain ⟨hbefore, hnew⟩ := nodup_concat hnodup
    have hearlier : ∀ x ∈ ids, x ∈ c.unresolved := fun x hx => hids x (List.mem_append_left _ hx)
    have hsame := ih hbefore hearlier
    have hout : id ∈ c.unresolved := hids id List.mem_concat_self
    obtain ⟨given, htracks⟩ := exists_tracks_afterEach hbefore hearlier
    obtain ⟨w, hw⟩ := (Table.contains_iff ..).1 (mem_unresolved.1 hout).1
    have hw' : (c.afterEach ids).widgets.find? id = some w := by
      rw [htracks.handles id, hw, Option.map_some, if_neg hnew]
    have hkeys : ∀ event, (c.afterEach ids).ticks.contains event = c.events.contains event := by
      intro event
      rw [contains_ticks, contains_events, hsame]
    rw [afterEach_concat, eventOwner_compute_of_known hw', hsame]
    intro e he
    rw [hsame, ← contains_events]
    exact hc id hout w hw _ hkeys e he

theorem dependsOn_afterEach (hc : c.Familiar) (hnodup : ids.Nodup)
    (hids : ∀ id ∈ ids, id ∈ c.unresolved) {id owner : String} :
    (c.afterEach ids).DependsOn id owner ↔ c.DependsOn id owner := by
  obtain ⟨given, htracks⟩ := exists_tracks_afterEach hnodup hids
  have hwaits : (c.afterEach ids).waits = c.waits := htracks.waits
  have hreg : (c.afterEach ids).widgets.contains owner = true ↔ c.widgets.contains owner = true :=
    htracks.contains_iff owner
  simp only [dependsOn_iff, waitsOf, hwaits, hreg, eventOwner_afterEach hc hnodup hids]

theorem isCycle_of_afterEach (hc : c.Familiar) (hnodup : ids.Nodup)
    (hids : ∀ id ∈ ids, id ∈ c.unresolved) {cycle : List String}
    (h : (c.afterEach ids).IsCycle cycle) : c.IsCycle cycle := by
  obtain ⟨given, htracks⟩ := exists_tracks_afterEach hnodup hids
  have hdepends : ∀ {id owner}, (c.afterEach ids).DependsOn id owner → c.DependsOn id owner :=
    (dependsOn_afterEach hc hnodup hids).1
  obtain ⟨first, hfirst, last, hlast, hclosed⟩ := h.closed
  refine ⟨h.nodup, fun id hid => ?_, h.linked.imp fun _ _ => hdepends,
    first, hfirst, last, hlast, hdepends hclosed⟩
  exact ((htracks.mem_unresolved_iff id).1 (h.outdated id hid)).1

end

/-! ### Order and forcing -/

theorem idxOf_lt_of_initial {before ids : List String} {id other : String} (hnodup : ids.Nodup)
    (h : before ++ [id] <+: ids) (hother : other ∈ before) : ids.idxOf other < ids.idxOf id := by
  obtain ⟨after, rfl⟩ := h
  have hnew : id ∉ before := by
    rw [List.append_assoc, List.nodup_append] at hnodup
    intro hid
    exact hnodup.2.2 id hid id List.mem_cons_self rfl
  have hlt := List.idxOf_lt_length_of_mem hother
  rw [List.append_assoc, List.idxOf_append_of_mem hother, List.idxOf_append_of_notMem hnew]
  omega

omit [Handle H] in
/-- If each widget comes after those that hold it up, none holds itself up. -/
theorem acyclic_of_order {order : List String} (hnodup : order.Nodup)
    (h : ∀ id owner, c.HeldUpBy id owner → ∃ before, before ++ [id] <+: order ∧ owner ∈ before) :
    c.Acyclic := by
  refine not_transGen_of_rank order.idxOf fun id owner hheld => ?_
  obtain ⟨before, hbefore, hmem⟩ := h id owner hheld
  exact idxOf_lt_of_initial hnodup hbefore hmem

theorem acyclic_of_unforced (hforced : c.resolve.value.2.forced = []) : c.Acyclic := by
  obtain ⟨given, hsequenced⟩ := exists_sequenced_resolve c
  refine acyclic_of_order hsequenced.sound.tracks.nodup fun id owner hheld => ?_
  obtain ⟨hid, howner, hdepends⟩ := hheld
  obtain ⟨before, hbefore⟩ := exists_initial ((mem_computed_resolve_iff c id).2 hid)
  have hnot : id ∉ c.resolve.value.2.forced := by
    rw [hforced]
    exact List.not_mem_nil
  have hout := (mem_unresolved.1 howner).2
  rcases hsequenced.supplied before id hbefore hnot owner hdepends with hres | hmem
  · rw [hout] at hres
    cases hres
  · exact ⟨before, hbefore, hmem⟩

theorem nodup_of_initial {before : List String} (h : before <+: c.resolve.value.2.computed) :
    before.Nodup := by
  obtain ⟨given, hsequenced⟩ := exists_sequenced_resolve c
  exact hsequenced.sound.tracks.nodup.sublist h.sublist

theorem outdated_of_initial {before : List String} (h : before <+: c.resolve.value.2.computed) :
    ∀ id ∈ before, id ∈ c.unresolved :=
  fun id hid => (mem_computed_resolve_iff c id).1 (h.subset hid)

theorem exists_cycle_of_forced (hc : c.Familiar)
    (hover : c.lastRound.coordinator.unresolved = []) {id : String} (hid : id ∈ c.resolve.value.2.forced) :
    ∃ before cycle, before ++ [id] <+: c.resolve.value.2.computed ∧
      (c.afterEach before).IsCycle cycle ∧ c.IsCycle cycle ∧ id ∈ cycle := by
  obtain ⟨given, hbreaking⟩ := exists_breaking_resolve hover
  obtain ⟨before, hbefore⟩ := exists_initial (hbreaking.sound.forced id hid)
  obtain ⟨cycle, hcycle, hmem⟩ := hbreaking.cyclic before id hbefore hid
  have hshorter : before <+: c.resolve.value.2.computed :=
    (List.prefix_append before [id]).trans hbefore
  have hstart := isCycle_of_afterEach hc (nodup_of_initial hshorter) (outdated_of_initial hshorter)
    hcycle
  exact ⟨before, cycle, hbefore, hcycle, hstart, hmem⟩

theorem unforced_of_acyclic (hc : c.Familiar) (hover : c.lastRound.coordinator.unresolved = [])
    (hacyclic : c.Acyclic) : c.resolve.value.2.forced = [] := by
  refine List.eq_nil_iff_forall_not_mem.2 fun id hid => ?_
  obtain ⟨_, cycle, -, -, hcycle, -⟩ := exists_cycle_of_forced hc hover hid
  exact hcycle.not_acyclic hacyclic

end Choreography.Coordinator

namespace Choreography

namespace Coordinator

theorem familiar_of_finds {c : Coordinator FixedWidget}
    (h : ∀ entry ∈ c.widgets.entries, ∀ e ∈ entry.2.finds, c.events.contains e.name = true) :
    c.Familiar := by
  intro id _ w hw ticks _ e he
  exact h (id, w) ((Table.find?_eq_some_iff ..).1 hw) e he

def trio : Coordinator FixedWidget :=
  ((empty {}).registerEach
    [("c", .of [] ["y"] []), ("b", .of [⟨"y", 5⟩] ["x"] [⟨"y", 7⟩]),
      ("a", .of [⟨"x", 3⟩] ["y"] [⟨"x", 8⟩])]).value

end Coordinator
end Choreography
