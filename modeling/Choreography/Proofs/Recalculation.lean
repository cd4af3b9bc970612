import Choreography.Proofs.Operations

/-! # Recalculation

A first pass replaces the estimated ticks of events by exact ones. Whatever is marked as out of date
later and computed again, it is given the same ticks as before and finds the same, so that the
events stay as the first pass has left them. -/
namespace Choreography.Coordinator
variable {H : Type} [Handle H] {entries : List (String × H)} {c₀ c : Coordinator H}
  {id : String} {w : H}

/-- Widgets of different names. Each event is declared by one of them at most, which does not wait
for it. However often a widget has been computed before, it finds only events that it declares, and
what it finds depends on nothing but the ticks of the events that it waits for. -/
structure Independent (entries : List (String × H)) : Prop where
  nodup : (entries.map Prod.fst).Nodup
  owned : ∀ x ∈ entries, ∀ y ∈ entries, ∀ event, event ∈ declares x.2 → event ∈ declares y.2 → x = y
  apart : ∀ x ∈ entries, ∀ event, (Handle.waitingFor x.2).value.contains event = true →
    event ∉ declares x.2
  found : ∀ x ∈ entries, ∀ w, Descends x.2 w → ∀ ticks, ∀ e ∈ (Handle.compute w ticks).value.2,
    e.name ∈ declares x.2
  responsive : ∀ x ∈ entries, ∀ w w', Descends x.2 w → Descends x.2 w' → ∀ ticks ticks' : Table Nat,
    (∀ event, (Handle.waitingFor x.2).value.contains event = true →
      ticks.find? event = ticks'.find? event) →
    (Handle.compute w ticks).value.2 = (Handle.compute w' ticks').value.2

/-- The coordinator knows the widgets, the owners of their events and what they wait for, and
nothing else, and no widget is up to date. -/
structure Gathers (entries : List (String × H)) (c : Coordinator H) : Prop where
  widgets : ∀ id w, c.widgets.find? id = some w ↔ (id, w) ∈ entries
  fresh : ∀ id, c.isResolved id = false
  waits : ∀ id event, (c.waitsOf id).contains event = true ↔
    ∃ w, (id, w) ∈ entries ∧ (Handle.waitingFor w).value.contains event = true
  owner : ∀ event id, c.eventOwner event = some id ↔ ∃ w, (id, w) ∈ entries ∧ event ∈ declares w

theorem gathers_registerEach (settings : CoordinatorSettings) (h : Independent entries) :
    Gathers entries ((empty settings).registerEach entries).value where
  widgets _ _ :=
    ⟨mem_of_find?_registerEach settings, fun hmem => find?_registerEach h.nodup hmem _⟩
  fresh _ := isResolved_registerEach _ rfl
  waits _ _ := by
    refine ⟨exists_mem_of_waitsOf_registerEach settings, ?_⟩
    rintro ⟨w, hmem, hwaits⟩
    exact waitsOf_registerEach hmem hwaits _
  owner event id := by
    refine ⟨exists_mem_of_eventOwner_registerEach settings, ?_⟩
    rintro ⟨w, hmem, hdeclares⟩
    refine eventOwner_registerEach hmem hdeclares (fun entry hentry hne hother => hne ?_) _
    exact h.owned entry hentry (id, w) hmem event hother hdeclares

namespace Gathers

theorem contains_iff (h : Gathers entries c) :
    c.widgets.contains id = true ↔ ∃ w, (id, w) ∈ entries := by
  simp only [Table.contains_iff, h.widgets]

theorem mem_unresolved_iff (h : Gathers entries c) : id ∈ c.unresolved ↔ ∃ w, (id, w) ∈ entries := by
  rw [mem_unresolved, h.contains_iff, h.fresh, and_iff_left rfl]

theorem familiar (h : Gathers entries c) (hi : Independent entries) : c.Familiar := by
  intro id _ w hw ticks _ e he
  have hmem := (h.widgets id w).1 hw
  have howner := (h.owner e.name id).2 ⟨w, hmem, hi.found _ hmem w .refl ticks e he⟩
  rw [contains_events, howner]
  rfl

/-- An unforced first pass gives a widget the ticks that the pass ends with. -/
theorem heard (h : Gathers entries c) (hi : Independent entries)
    (hforced : c.resolve.value.2.forced = []) (hmem : (id, w) ∈ entries) {first : List String}
    (hfirst : first ++ [id] <+: c.resolve.value.2.computed) {event : String}
    (hwaits : (Handle.waitingFor w).value.contains event = true) :
    (c.afterEach first).ticks.find? event = c.resolve.value.1.eventTick event := by
  have hfamiliar := h.familiar hi
  obtain ⟨-, -, hfinal, howners, -, -⟩ := resolve_reads_final_ticks hfamiliar
  cases ho : c.eventOwner event with
  | none =>
    have hshorter : first <+: c.resolve.value.2.computed :=
      (List.prefix_append first [id]).trans hfirst
    have hnone := eventOwner_afterEach hfamiliar (nodup_of_initial hshorter)
      (outdated_of_initial hshorter) event
    rw [find?_ticks, eventTick_eq_none_iff.2 (hnone.trans ho),
      eventTick_eq_none_iff.2 ((howners event).trans ho)]
  | some owner =>
    obtain ⟨wo, hwo, hdeclares⟩ := (h.owner event owner).1 ho
    have hne : owner ≠ id := by
      rintro rfl
      have hsame : wo = w := Option.some.inj
        (((h.widgets owner wo).2 hwo).symm.trans ((h.widgets owner w).2 hmem))
      exact hi.apart _ hmem event hwaits (hsame ▸ hdeclares)
    refine hfinal first id hfirst (hforced ▸ List.not_mem_nil) event owner ⟨?_, ho, hne, ?_⟩
    · exact (h.waits id event).2 ⟨w, hmem, hwaits⟩
    · exact h.contains_iff.2 ⟨wo, hwo⟩

theorem exists_first (h : Gathers entries c) (hmem : (id, w) ∈ entries) :
    ∃ first, first ++ [id] <+: c.resolve.value.2.computed :=
  exists_initial ((mem_computed_resolve_iff c id).2 (h.mem_unresolved_iff.2 ⟨w, hmem⟩))

end Gathers

/-! ### Rounds -/

section
variable {p q : Pass H} {given given' : String → Table Nat}

/-- What a round forces stays forced. -/
theorem forced_rounds (p : Pass H) (n : Nat) :
    p.summary.forced <+: (p.rounds n).value.summary.forced := by
  induction n generalizing p with
  | zero => exact List.prefix_refl _
  | succ n ih =>
    cases hun : p.coordinator.unresolved with
    | nil =>
      simp only [value_rounds_of_nil hun, List.prefix_refl]
    | cons first rest =>
      rw [value_rounds_of_cons hun]
      refine List.IsPrefix.trans ?_ (ih (p.round first rest).value)
      rcases summary_round hun with ⟨-, hsummary⟩ | ⟨-, other, hsummary⟩
      · simp only [hsummary, List.prefix_refl]
      · simp only [hsummary, List.prefix_append]

/-- In the course of a pass dependencies stay as they are. -/
theorem Sequenced.dependsOn_iff (h : Sequenced c given p) (hc : c.Familiar) {owner : String} :
    p.coordinator.DependsOn id owner ↔ c.DependsOn id owner := by
  rw [h.replayed]
  exact dependsOn_afterEach hc h.sound.tracks.nodup h.sound.tracks.outdated

/-- A widget stays out of date for a round unless the round computes it. -/
theorem mem_unresolved_round {first : String} {rest : List String} (h : Sequenced c given p)
    (hun : p.coordinator.unresolved = first :: rest) :
    ∃ given', Sequenced c given' (p.round first rest).value ∧
      (∀ id ∈ (p.round first rest).value.coordinator.unresolved,
        id ∈ p.coordinator.unresolved ∧ id ∉ p.ready) ∧
      ((p.round first rest).value.summary.forced = [] → ∀ id ∈ p.coordinator.unresolved,
        id ∉ p.ready → id ∈ (p.round first rest).value.coordinator.unresolved) := by
  obtain ⟨given', hnext⟩ := (lasting_sequenced c).toKept.round h hun
  have hbefore := h.sound.tracks.mem_unresolved_iff
  have hafter := hnext.sound.tracks.mem_unresolved_iff
  refine ⟨given', hnext, fun id hid => ?_, fun hforced id hid hready => ?_⟩
  · obtain ⟨hout, hnew⟩ := (hafter id).1 hid
    rcases summary_round hun with ⟨-, hsummary⟩ | ⟨hnone, other, hsummary⟩
    · rw [hsummary, List.mem_append, not_or] at hnew
      exact ⟨(hbefore id).2 ⟨hout, hnew.1⟩, hnew.2⟩
    · rw [hsummary, List.mem_append, not_or] at hnew
      exact ⟨(hbefore id).2 ⟨hout, hnew.1⟩, hnone ▸ List.not_mem_nil⟩
  · obtain ⟨hout, hnew⟩ := (hbefore id).1 hid
    rcases summary_round hun with ⟨-, hsummary⟩ | ⟨-, other, hsummary⟩
    · refine (hafter id).2 ⟨hout, ?_⟩
      rw [hsummary, List.mem_append, not_or]
      exact ⟨hnew, hready⟩
    · rw [hsummary] at hforced
      exact absurd hforced (List.concat_ne_nil _ _)

variable (hc₀ : c₀.Familiar) (hc : c.Familiar)
  (hdepends : ∀ id owner, c.DependsOn id owner → c₀.DependsOn id owner)
include hc₀ hc hdepends

/-- What is ready is ready as well where it depends on no more and no more is out of date. -/
theorem isReady_of_isReady (hq : Sequenced c₀ given q) (hp : Sequenced c given' p)
    (hout : p.coordinator.unresolved ⊆ q.coordinator.unresolved)
    (hready : q.coordinator.isReady id = true) : p.coordinator.isReady id = true := by
  refine isReady_iff.2 fun owner howner => ?_
  have hneeded := hdepends id owner ((hp.dependsOn_iff hc).1 howner)
  have hdone := isReady_iff.1 hready owner ((hq.dependsOn_iff hc₀).2 hneeded)
  obtain ⟨-, -, -, -, hreg⟩ := dependsOn_iff.1 howner
  by_contra hnew
  have hmem := hout (mem_unresolved.2 ⟨hreg, Bool.not_eq_true _ ▸ hnew⟩)
  rw [(mem_unresolved.1 hmem).2] at hdone
  cases hdone

/-- Rounds that force nothing bring up to date at most what as many rounds do there. -/
theorem unresolved_rounds_subset (n : Nat) (hq : Sequenced c₀ given q) (hp : Sequenced c given' p)
    (hout : p.coordinator.unresolved ⊆ q.coordinator.unresolved)
    (hforced : (q.rounds n).value.summary.forced = []) :
    (p.rounds n).value.coordinator.unresolved ⊆ (q.rounds n).value.coordinator.unresolved := by
  induction n generalizing p q given given' with
  | zero => exact hout
  | succ n ih =>
    cases hqun : q.coordinator.unresolved with
    | nil =>
      rw [hqun] at hout
      rw [value_rounds_of_nil (List.subset_nil.1 hout), value_rounds_of_nil hqun, hqun]
      exact hout
    | cons first rest =>
      rw [value_rounds_of_cons hqun] at hforced ⊢
      obtain ⟨later, hlater, -, hleft⟩ := mem_unresolved_round hq hqun
      have hunforced := List.prefix_nil.1 (hforced ▸ forced_rounds (q.round first rest).value n)
      cases hpun : p.coordinator.unresolved with
      | nil =>
        rw [value_rounds_of_nil hpun, hpun]
        exact List.nil_subset _
      | cons first' rest' =>
        rw [value_rounds_of_cons hpun]
        obtain ⟨later', hlater', hstays, -⟩ := mem_unresolved_round hp hpun
        refine ih hlater hlater' (fun id hid => ?_) hforced
        obtain ⟨hid, hready⟩ := hstays id hid
        refine hleft hunforced id (hout hid) fun hmem => hready (List.mem_filter.2 ⟨hid, ?_⟩)
        exact isReady_of_isReady hc₀ hc hdepends hq hp hout (List.mem_filter.1 hmem).2

end

/-! ### After the first pass -/

/-- The events are as the first pass has left them, what depends on what is as it was, there is the
same budget, and the widgets have only been computed. -/
structure Settled (c₀ c : Coordinator H) : Prop where
  events : c.events = c₀.resolve.value.1.events
  waits : c.waits = c₀.waits
  budget : c.budget = c₀.budget
  handles : ∀ id w', c.widgets.find? id = some w' →
    ∃ w, c₀.widgets.find? id = some w ∧ Descends w w'

theorem settled_resolve (c₀ : Coordinator H) : Settled c₀ c₀.resolve.value.1 := by
  obtain ⟨given, hsound, -⟩ := exists_sound_resolve c₀
  refine ⟨rfl, hsound.tracks.waits, budget_resolve c₀, fun id w' hw' => ?_⟩
  obtain ⟨w, hw, rfl⟩ := Option.map_eq_some_iff.1 ((hsound.tracks.handles id).symm.trans hw')
  refine ⟨w, hw, ?_⟩
  split
  · exact descends_compute w _
  · exact .refl

theorem exists_of_firstTick {events : List SyncEvent} {event : String} {tick : Nat}
    (h : firstTick events event = some tick) : ∃ e ∈ events, e.name = event := by
  obtain ⟨e, he, -⟩ := Option.map_eq_some_iff.1 h
  exact ⟨e, List.mem_of_find?_eq_some he, by simpa using List.find?_some he⟩

namespace Settled
variable (hs : Settled c₀ c) (hg : Gathers entries c₀) (hi : Independent entries)
  (hforced : c₀.resolve.value.2.forced = [])
include hs hg hi

theorem eventOwner (event : String) : c.eventOwner event = c₀.eventOwner event := by
  obtain ⟨-, -, -, howners, -, -⟩ := resolve_reads_final_ticks (hg.familiar hi)
  rw [← howners event, Coordinator.eventOwner, Coordinator.eventOwner, hs.events]

include hforced

/-- A widget is given the ticks of its first computation. -/
theorem heard (hmem : (id, w) ∈ entries) {first : List String}
    (hfirst : first ++ [id] <+: c₀.resolve.value.2.computed) {event : String}
    (hwaits : (Handle.waitingFor w).value.contains event = true) :
    c.ticks.find? event = (c₀.afterEach first).ticks.find? event := by
  rw [hg.heard hi hforced hmem hfirst hwaits, find?_ticks, eventTick, eventTick, hs.events]

/-- So it finds what it has found, and the events stay as they are. -/
theorem events_compute {w' : H} (hw' : c.widgets.find? id = some w') :
    (c.compute id).value.events = c.events := by
  obtain ⟨w, hw, hdescends⟩ := hs.handles id w' hw'
  have hmem := (hg.widgets id w).1 hw
  obtain ⟨first, hfirst⟩ := hg.exists_first hmem
  have hsame : (Handle.compute w' c.ticks).value.2 =
      (Handle.compute w (c₀.afterEach first).ticks).value.2 :=
    hi.responsive _ hmem w' w hdescends .refl _ _ fun event hwaits =>
      hs.heard hg hi hforced hmem hfirst hwaits
  refine Table.ext_find? fun event => ?_
  rw [find?_events_compute hw']
  cases htick : firstTick (Handle.compute w' c.ticks).value.2 event with
  | none => cases c.events.find? event <;> rfl
  | some tick =>
    obtain ⟨e, he, rfl⟩ := exists_of_firstTick htick
    have hdeclares := hi.found _ hmem w' hdescends _ e he
    have howner := (hg.owner e.name id).2 ⟨w, hmem, hdeclares⟩
    obtain ⟨given, hsequenced⟩ := exists_sequenced_resolve c₀
    have hexact : c₀.resolve.value.1.eventTick e.name = some tick := by
      rw [hsequenced.eventTick_of_computed howner hfirst, foundTick, hw, Option.bind_some, ← hsame,
        htick, Option.some_or]
    rw [eventTick, ← hs.events] at hexact
    rw [← hs.eventOwner hg hi, Coordinator.eventOwner] at howner
    obtain ⟨known, hknown, rfl⟩ := Option.map_eq_some_iff.1 hexact
    rw [hknown] at howner ⊢
    cases howner
    simp [rewrite]

theorem compute {w' : H} (hw' : c.widgets.find? id = some w') : Settled c₀ (c.compute id).value := by
  refine ⟨(hs.events_compute hg hi hforced hw').trans hs.events, ?_,
    (budget_compute hw').trans hs.budget, fun other v hv => ?_⟩
  · rw [value_compute hw']
    exact hs.waits
  · rw [find?_widgets_compute hw'] at hv
    split at hv
    · rename_i hother
      obtain ⟨w, hw, hdescends⟩ := hs.handles id w' hw'
      cases hv
      exact ⟨w, hother ▸ hw, hdescends.tail ⟨_, rfl⟩⟩
    · exact hs.handles other v hv

theorem afterEach (ids : List String) : Settled c₀ (c.afterEach ids) :=
  kept_afterEach (fun _ _ _ _ hw h => h.compute hg hi hforced hw) hs

omit hforced in
theorem familiar : c.Familiar := by
  intro id _ w' hw' ticks _ e he
  obtain ⟨w, hw, hdescends⟩ := hs.handles id w' hw'
  have hmem := (hg.widgets id w).1 hw
  have howner := (hg.owner e.name id).2 ⟨w, hmem, hi.found _ hmem w' hdescends ticks e he⟩
  rw [contains_events, hs.eventOwner hg hi, howner]
  rfl

omit hi hforced in
theorem registered (h : c.widgets.contains id = true) : ∃ w, (id, w) ∈ entries := by
  obtain ⟨w', hw'⟩ := (Table.contains_iff ..).1 h
  obtain ⟨w, hw, -⟩ := hs.handles id w' hw'
  exact ⟨w, (hg.widgets id w).1 hw⟩

omit hi hforced in
theorem outdated (h : id ∈ c.unresolved) : id ∈ c₀.unresolved :=
  hg.mem_unresolved_iff.2 (hs.registered hg (mem_unresolved.1 h).1)

omit hforced in
theorem dependsOn {owner : String} (h : c.DependsOn id owner) : c₀.DependsOn id owner := by
  obtain ⟨event, hwaits, ho, hne, hreg⟩ := dependsOn_iff.1 h
  refine dependsOn_iff.2 ⟨event, ?_, ?_, hne, hg.contains_iff.2 (hs.registered hg hreg)⟩
  · rwa [waitsOf, ← hs.waits]
  · rwa [← hs.eventOwner hg hi]

/-- Rounds that were enough for the first pass are enough for the next one. -/
theorem unresolved_lastRound : c.lastRound.coordinator.unresolved = [] := by
  obtain ⟨hrounds, hover⟩ := List.append_eq_nil_iff.1 ((forced_resolve c₀).symm.trans hforced)
  have hsubset : c.lastRound.coordinator.unresolved ⊆ c₀.lastRound.coordinator.unresolved := by
    rw [lastRound, hs.budget]
    exact unresolved_rounds_subset (hg.familiar hi) (hs.familiar hg hi)
      (fun _ _ => hs.dependsOn hg hi) c₀.budget (Sequenced.start c₀) (Sequenced.start c)
      (fun _ => hs.outdated hg) hrounds
  rw [hover] at hsubset
  exact List.subset_nil.1 hsubset

theorem unforced : c.resolve.value.2.forced = [] := by
  refine unforced_of_acyclic (hs.familiar hg hi) (hs.unresolved_lastRound hg hi hforced)
    fun id hcycle => ?_
  refine acyclic_of_unforced hforced id (Relation.TransGen.mono (fun a b hab => ?_) _ _ hcycle)
  obtain ⟨ha, hb, hdepends⟩ := hab
  exact ⟨hs.outdated hg ha, hs.outdated hg hb, hs.dependsOn hg hi hdepends⟩

end Settled

def Recalculates : Operation H → Prop
  | .invalidate _ => True
  | .resolve => True
  | _ => False

theorem settled_operateAll (hg : Gathers entries c₀) (hi : Independent entries)
    (hforced : c₀.resolve.value.2.forced = []) {ops : List (Operation H)}
    (hops : ∀ op ∈ ops, Recalculates op) : Settled c₀ (c₀.resolve.value.1.operateAll ops) := by
  induction ops using List.reverseRecOn with
  | nil => exact settled_resolve c₀
  | append_singleton ops op ih =>
    have hs := ih fun x hx => hops x (List.mem_append_left _ hx)
    have hop := hops op List.mem_concat_self
    rw [operateAll_concat]
    cases op with
    | invalidate id => exact ⟨hs.events, hs.waits, hs.budget, hs.handles⟩
    | resolve =>
      rw [operate, resolve_eq_afterEach]
      exact hs.afterEach hg hi hforced _
    | _ => cases hop

/-- After a first pass that has forced nothing, no recalculation changes an event or forces a widget.
Each computation, up to the last one of every pass, is given the same ticks of the events that the
widget waits for as its computation in the first pass. -/
theorem recalculation_stable (settings : CoordinatorSettings) (hi : Independent entries)
    (hc₀ : ((empty settings).registerEach entries).value = c₀)
    (hforced : c₀.resolve.value.2.forced = []) {ops : List (Operation H)}
    (hops : ∀ op ∈ ops, Recalculates op) (hc : c₀.resolve.value.1.operateAll ops = c) :
    c.events = c₀.resolve.value.1.events ∧
    c.resolve.value.2.forced = [] ∧
    (∀ before id, before ++ [id] <+: c.resolve.value.2.computed →
      (c.afterEach before).events = c₀.resolve.value.1.events ∧
      ∃ first w w', first ++ [id] <+: c₀.resolve.value.2.computed ∧
        c₀.widgets.find? id = some w ∧ c₀.resolve.value.1.widgets.find? id =
          some (Handle.compute w (c₀.afterEach first).ticks).value.1 ∧
        c.widgets.find? id = some w' ∧ c.resolve.value.1.widgets.find? id =
          some (Handle.compute w' (c.afterEach before).ticks).value.1 ∧
        ∀ event, (Handle.waitingFor w).value.contains event = true →
          (c.afterEach before).ticks.find? event = (c₀.afterEach first).ticks.find? event) := by
  have hg : Gathers entries c₀ := hc₀ ▸ gathers_registerEach settings hi
  have hs : Settled c₀ c := hc ▸ settled_operateAll hg hi hforced hops
  obtain ⟨given, hsequenced⟩ := exists_sequenced_resolve c
  obtain ⟨given₀, hsequenced₀⟩ := exists_sequenced_resolve c₀
  refine ⟨hs.events, hs.unforced hg hi hforced, fun before id hid => ?_⟩
  have hbefore : Settled c₀ (c.afterEach before) := hs.afterEach hg hi hforced before
  obtain ⟨w', hw', hcomputed⟩ := hsequenced.handle hid
  obtain ⟨w, hmem⟩ := hs.registered hg ((Table.contains_iff ..).2 ⟨w', hw'⟩)
  obtain ⟨first, hfirst⟩ := hg.exists_first hmem
  obtain ⟨w₀, hw₀, hcomputed₀⟩ := hsequenced₀.handle hfirst
  cases ((hg.widgets id w).2 hmem).symm.trans hw₀
  exact ⟨hbefore.events, first, w, w', hfirst, hw₀, hcomputed₀, hw', hcomputed, fun event hwaits =>
    hbefore.heard hg hi hforced hmem hfirst hwaits⟩

end Choreography.Coordinator

namespace Choreography

structure Echo where
  mine : String
  other : String
  delay : Nat
deriving DecidableEq

namespace Echo

instance : Handle Echo where
  syncEvents w := pure [⟨w.mine, 0⟩]
  waitingFor w := pure (Table.empty.add w.other)
  compute w ticks := pure (w, [⟨w.mine, (ticks.find? w.other).getD 0 + w.delay⟩])

theorem eq_of_descends {w w' : Echo} (h : Descends w w') : w' = w := by
  induction h with
  | refl => rfl
  | tail _ hstep ih =>
    obtain ⟨ticks, rfl⟩ := hstep
    exact ih

theorem mem_declares {w : Echo} {event : String} :
    event ∈ Coordinator.declares w ↔ event = w.mine := List.mem_singleton

theorem waits_iff {w : Echo} {event : String} :
    (Handle.waitingFor w).value.contains event = true ↔ event = w.other := by
  refine (Table.contains_add Table.empty w.other event).trans (or_iff_left nofun)

end Echo

namespace Coordinator

/-- The first one echoes the second one, which is registered later. -/
def echoes : List (String × Echo) := [("a", ⟨"x", "y", 3⟩), ("b", ⟨"y", "go", 4⟩)]

theorem independent_echoes : Independent echoes where
  nodup := by decide
  owned x hx y hy event hdx hdy := by
    have hinjective : ∀ x ∈ echoes, ∀ y ∈ echoes, x.2.mine = y.2.mine → x = y := by decide
    exact hinjective x hx y hy ((Echo.mem_declares.1 hdx).symm.trans (Echo.mem_declares.1 hdy))
  apart x hx event hwaits hdeclares := by
    have hother : ∀ x ∈ echoes, x.2.other ≠ x.2.mine := by decide
    exact hother x hx ((Echo.waits_iff.1 hwaits).symm.trans (Echo.mem_declares.1 hdeclares))
  found x hx w hw ticks e he := by
    cases Echo.eq_of_descends hw
    cases List.mem_singleton.1 he
    exact Echo.mem_declares.2 rfl
  responsive x hx w w' hw hw' ticks ticks' hsame := by
    cases Echo.eq_of_descends hw
    cases Echo.eq_of_descends hw'
    have hticks := hsame x.2.other (Echo.waits_iff.2 rfl)
    change [_] = [_]
    rw [hticks]

/-- The first pass corrects the estimates, and later ones leave the ticks so. -/
theorem recalculation_stable_echoes :
    (((empty {}).registerEach echoes).value.resolve.value.1.operateAll
      [.invalidate "b", .resolve, .invalidate "a"]).eventTick "x" = some 7 ∧
    (((empty {}).registerEach echoes).value.resolve.value.1.operateAll
      [.invalidate "b", .resolve, .invalidate "a"]).resolve.value.2.forced = [] ∧
    ((empty {}).registerEach echoes).value.eventTick "x" = some 0 := by
  have hops : ∀ op ∈ ([.invalidate "b", .resolve, .invalidate "a"] : List (Operation Echo)),
      Recalculates op := by
    intro op hop
    simp only [List.mem_cons, List.not_mem_nil, or_false] at hop
    rcases hop with rfl | rfl | rfl <;> trivial
  obtain ⟨hevents, hforced, -⟩ :=
    recalculation_stable {} independent_echoes rfl (by decide) hops rfl
  refine ⟨?_, hforced, by decide⟩
  rw [eventTick, hevents]
  decide

end Coordinator
end Choreography
