import Choreography.Proofs.DependencyOrder

/-! # Ticks are final when they are read

During a pass that brings no new events, events keep their owners, and only the computation of its
owner changes the tick of an event. A widget that is not forced is computed after the owners of
what it waits for, so the ticks that it is given are those that the pass ends with. -/
namespace Choreography
namespace Coordinator
variable {H : Type} [Handle H] {c : Coordinator H} {given : String → Table Nat} {p : Pass H}

/-- The first tick that a widget finds for an event if it is computed when others have been. -/
def foundTick (c : Coordinator H) (before : List String) (id event : String) : Option Nat :=
  (c.widgets.find? id).bind fun w =>
    firstTick (Handle.compute w (c.afterEach before).ticks).value.2 event

theorem Sequenced.handle (h : Sequenced c given p) {before : List String} {id : String}
    (hid : before ++ [id] <+: p.summary.computed) :
    ∃ w, c.widgets.find? id = some w ∧ p.coordinator.widgets.find? id =
      some (Handle.compute w (c.afterEach before).ticks).value.1 := by
  have hmem := mem_of_initial hid
  obtain ⟨w, hw⟩ := (Table.contains_iff ..).1 (mem_unresolved.1 (h.sound.tracks.outdated id hmem)).1
  refine ⟨w, hw, ?_⟩
  rw [h.sound.tracks.handles id, hw, Option.map_some, if_pos hmem, h.given_eq before id hid]

/-- The tick of an event of a widget that has been computed. -/
theorem Sequenced.eventTick_of_computed (h : Sequenced c given p) {before : List String}
    {owner event : String} (howner : c.eventOwner event = some owner)
    (hcomputed : before ++ [owner] <+: p.summary.computed) :
    p.coordinator.eventTick event = (c.foundTick before owner event).or (c.eventTick event) := by
  obtain ⟨w, hw, -⟩ := h.handle hcomputed
  rw [h.sound.tracks.exact event owner w howner hw (mem_of_initial hcomputed),
    h.given_eq before owner hcomputed, foundTick, hw, Option.bind_some]

theorem Sequenced.eventOwner_eq (h : Sequenced c given p) (hc : c.Familiar) (event : String) :
    p.coordinator.eventOwner event = c.eventOwner event := by
  rw [h.replayed]
  exact eventOwner_afterEach hc h.sound.tracks.nodup h.sound.tracks.outdated event

omit [Handle H] in
theorem eventTick_eq_none_iff {event : String} :
    c.eventTick event = none ↔ c.eventOwner event = none := by
  rw [eventTick, eventOwner, Option.map_eq_none_iff, Option.map_eq_none_iff]

theorem Sequenced.changed (h : Sequenced c given p) (hc : c.Familiar) {event : String}
    (hne : p.coordinator.eventTick event ≠ c.eventTick event) :
    ∃ before owner tick, c.eventOwner event = some owner ∧
      before ++ [owner] <+: p.summary.computed ∧ c.foundTick before owner event = some tick := by
  cases howner : c.eventOwner event with
  | none =>
    have hnone : p.coordinator.eventOwner event = none := (h.eventOwner_eq hc event).trans howner
    rw [eventTick_eq_none_iff.2 howner, eventTick_eq_none_iff.2 hnone] at hne
    exact absurd rfl hne
  | some owner =>
    have hmem : owner ∈ p.summary.computed := by
      by_contra hnot
      exact hne (h.sound.tracks.unchanged event owner howner hnot)
    obtain ⟨before, hbefore⟩ := exists_initial hmem
    cases hfound : c.foundTick before owner event with
    | none =>
      have hsame := h.eventTick_of_computed howner hbefore
      rw [hfound, Option.none_or] at hsame
      exact absurd hsame hne
    | some tick => exact ⟨before, owner, tick, rfl, hbefore, hfound⟩

/-- A pass computes its widgets one after the other, each with the ticks known by then. A widget
that is not forced is given the ticks after the pass of all events of other widgets that it waits
for. No event changes its owner, and an event changes its tick only if its owner is computed and
finds it; its tick is then the first one that the owner has found. -/
theorem resolve_reads_final_ticks (hc : c.Familiar) :
    c.resolve.value.1 = c.afterEach c.resolve.value.2.computed ∧
    (∀ before id, before ++ [id] <+: c.resolve.value.2.computed →
      ∃ w, c.widgets.find? id = some w ∧ c.resolve.value.1.widgets.find? id =
        some (Handle.compute w (c.afterEach before).ticks).value.1) ∧
    (∀ before id, before ++ [id] <+: c.resolve.value.2.computed →
      id ∉ c.resolve.value.2.forced → ∀ event owner, c.Awaits id event owner →
        (c.afterEach before).ticks.find? event = c.resolve.value.1.eventTick event) ∧
    (∀ event, c.resolve.value.1.eventOwner event = c.eventOwner event) ∧
    (∀ event, c.resolve.value.1.eventTick event ≠ c.eventTick event →
      ∃ before owner tick, c.eventOwner event = some owner ∧
        before ++ [owner] <+: c.resolve.value.2.computed ∧
          c.foundTick before owner event = some tick) ∧
    (∀ before owner event tick, c.eventOwner event = some owner →
      before ++ [owner] <+: c.resolve.value.2.computed →
        c.foundTick before owner event = some tick →
          c.resolve.value.1.eventTick event = some tick) := by
  obtain ⟨given, hsequenced⟩ := exists_sequenced_resolve c
  refine ⟨hsequenced.replayed, fun before id hid => hsequenced.handle hid, ?_,
    hsequenced.eventOwner_eq hc, fun event hne => hsequenced.changed hc hne, ?_⟩
  · intro before id hid hforced event owner hawaits
    have hinformed := hsequenced.sound.informed id (mem_of_initial hid) hforced event owner hawaits
    rw [← hsequenced.given_eq before id hid]
    exact hinformed.2
  · intro before owner event tick howner hcomputed hfound
    have htick := hsequenced.eventTick_of_computed howner hcomputed
    rw [hfound] at htick
    exact htick

/-- A widget finds its event twice, at ticks that it did not expect, and one of the widget that
waits for it. -/
def relay : Coordinator FixedWidget :=
  ((empty {}).registerEach
    [("a", .of [⟨"y", 5⟩] ["x"] [⟨"y", 7⟩]),
      ("b", .of [⟨"x", 3⟩] [] [⟨"x", 8⟩, ⟨"y", 1⟩, ⟨"x", 20⟩])]).value

theorem resolve_reads_final_ticks_relay :
    relay.Familiar ∧ relay.resolve.value.2 = ⟨["b", "a"], [], 2⟩ ∧
      relay.Awaits "a" "x" "b" ∧ relay.eventTick "x" = some 3 ∧
      relay.resolve.value.1.eventTick "x" = some 8 ∧
      (relay.afterEach ["b"]).ticks.find? "x" = some 8 := by
  have hfamiliar : relay.Familiar := familiar_of_finds (by decide)
  have hsummary : relay.resolve.value.2 = ⟨["b", "a"], [], 2⟩ := by decide
  have hawaits : relay.Awaits "a" "x" "b" := by
    refine ⟨?_, ?_, ?_, ?_⟩ <;> decide
  obtain ⟨-, -, hfinal, -, -, hfound⟩ := resolve_reads_final_ticks hfamiliar
  rw [hsummary] at hfinal hfound
  have htick := hfound [] "b" "x" 8 (by decide) (List.prefix_append _ _) (by decide)
  have hgiven := hfinal ["b"] "a" (List.prefix_refl _) List.not_mem_nil "x" "b" hawaits
  exact ⟨hfamiliar, hsummary, hawaits, by decide, htick, hgiven.trans htick⟩

end Coordinator
end Choreography
