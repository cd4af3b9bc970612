import Choreography.Proofs.Registration
import Choreography.Proofs.Waiting
import Mathlib

/-! # Widgets meet at events

A widget that waits for an event of another one goes on at the very frame at which the other one
announces it: resolution computes the announcer first and hands its exact tick to the waiter, and
on both timelines ticks are the indices of frames. -/
namespace Choreography

namespace Performance

/-- Wherever the run waits for an event, it stays in place until a tick, but at least one tick and
not longer than it may, and goes on there. If it may wait until the tick, it goes on at it. -/
def MeetsAt (p : Performance) (event : String) (tick : Nat) : Prop :=
  ∀ m maxTicks, p.Executing none m (.waitFor event maxTicks) →
    let c := m.recorder.tick
    let most := (m.recorder.env.evalInteger maxTicks).toNat
    let wait := min most (max 1 (tick - c))
    Resumes (p.perform none).timeline.frames c wait m.recorder.current.coords ∧
      (c < tick → tick ≤ c + most → c + wait = tick)

/-- The run announces an event for the first time at a frame where it holds the widget. -/
def AnnouncesAt (p : Performance) (event : String) (tick : Nat) : Prop :=
  ∃ m, p.Executing none m (.sync event) ∧
    Coordinator.firstTick m.recorder.syncs.toList event = none ∧ m.recorder.tick = tick ∧
      ∃ f, (p.perform none).timeline.frames[tick]? = some f ∧ f.pause = false ∧
        f.coords = m.recorder.current.coords

end Performance

/-- The widget with the timeline that it has been given by a computation. -/
def AnimatedWidget.Computed (before after : AnimatedWidget) : Prop :=
  (∃ ticks, after.performance = { before.performance with eventTicks := ticks }) ∧
    after.timeline = some (after.performance.perform none).timeline

namespace Coordinator

section
variable {H : Type} [Handle H]

/-- A widget that is not forced is computed with the tick that an event of another widget has
after the pass, and that is the exact one if the other widget has found one. -/
theorem exists_given_resolve {c : Coordinator H} {a b event : String} {wa wb : H}
    (ha : c.widgets.find? a = some wa) (hb : c.widgets.find? b = some wb) (hab : a ≠ b)
    (hresolved : ∀ id, c.isResolved id = false) (howner : c.eventOwner event = some a)
    (hwaits : (c.waitsOf b).contains event = true) (hforced : b ∉ c.resolve.value.2.forced) :
    ∃ givenA givenB tick, c.resolve.value.1.eventTick event = some tick ∧
      c.resolve.value.1.widgets.find? a = some (Handle.compute wa givenA).value.1 ∧
      c.resolve.value.1.widgets.find? b = some (Handle.compute wb givenB).value.1 ∧
      givenB.find? event = some tick ∧
      ∀ exact, firstTick (Handle.compute wa givenA).value.2 event = some exact → exact = tick := by
  obtain ⟨given, hsound, _, _⟩ := exists_sound_resolve c
  have hcomputed : ∀ id w, c.widgets.find? id = some w → id ∈ c.resolve.value.2.computed := by
    intro id w hw
    rw [mem_computed_resolve_iff, mem_unresolved]
    exact ⟨(Table.contains_iff ..).mpr ⟨w, hw⟩, hresolved id⟩
  have hacomputed := hcomputed a wa ha
  have hbcomputed := hcomputed b wb hb
  have hawaits : c.Awaits b event a :=
    ⟨hwaits, howner, hab, (Table.contains_iff ..).mpr ⟨wa, ha⟩⟩
  obtain ⟨-, hgiven⟩ := hsound.informed b hbcomputed hforced event a hawaits
  have hexact := hsound.tracks.exact event a wa howner ha hacomputed
  obtain ⟨known, hknown, -⟩ := Option.map_eq_some_iff.mp howner
  have hestimate : c.eventTick event = some known.tick := by rw [eventTick, hknown]; rfl
  rw [hestimate] at hexact
  refine ⟨given a, given b, (firstTick (Handle.compute wa (given a)).value.2 event).getD known.tick,
    ?_, ?_, ?_, ?_, ?_⟩
  · rw [hexact, Option.or_some]
  · rw [hsound.tracks.handles a, ha]
    simp only [Option.map_some, hacomputed, if_true]
  · rw [hsound.tracks.handles b, hb]
    simp only [Option.map_some, hbcomputed, if_true]
  · rw [hgiven, hexact, Option.or_some]
  · intro exact h
    rw [h]
    rfl

end

/-- Widgets are registered once each and resolved by one pass. If one of them alone brings an
event, then every other one that waits for it and is not forced waits for the exact tick of its
first announcement. -/
theorem registered_widgets_meet (settings : CoordinatorSettings)
    {entries : List (String × AnimatedWidget)} (hnodup : (entries.map Prod.fst).Nodup)
    {a b event : String} {wa wb : AnimatedWidget} (ha : (a, wa) ∈ entries) (hb : (b, wb) ∈ entries)
    (hab : a ≠ b) (hdeclares : event ∈ declares wa)
    (honly : ∀ entry ∈ entries, entry.1 ≠ a → event ∉ declares entry.2)
    (hwaits : wb.performance.waitingFor.value.contains event = true)
    {c : Coordinator AnimatedWidget} (hc : ((empty settings).registerEach entries).value = c)
    (hforced : b ∉ c.resolve.value.2.forced) :
    ∃ fa fb tick, c.resolve.value.1.eventTick event = some tick ∧
      c.resolve.value.1.widgets.find? a = some fa ∧ wa.Computed fa ∧
      c.resolve.value.1.widgets.find? b = some fb ∧ wb.Computed fb ∧
      ((fb.performance.outcome none).1.recorder.capped = false →
        fb.performance.MeetsAt event tick) ∧
      ((fa.performance.outcome none).1.recorder.capped = false →
        (∃ e ∈ (fa.performance.perform none).timeline.syncs, e.name = event) →
          fa.performance.AnnouncesAt event tick) := by
  have hfresh : ∀ id, c.isResolved id = false := by
    intro id
    rw [← hc]
    exact isResolved_registerEach _ rfl
  have hwa : c.widgets.find? a = some wa := by
    rw [← hc]
    exact find?_registerEach hnodup ha _
  have hwb : c.widgets.find? b = some wb := by
    rw [← hc]
    exact find?_registerEach hnodup hb _
  have howner : c.eventOwner event = some a := by
    rw [← hc]
    refine eventOwner_registerEach ha hdeclares (fun entry hentry hne => ?_) _
    exact honly entry hentry (ne_of_nodup hnodup hentry ha hne)
  have hwaitsOf : (c.waitsOf b).contains event = true := by
    rw [← hc]
    exact waitsOf_registerEach hb hwaits _
  obtain ⟨givenA, givenB, tick, htick, hfa, hfb, hgiven, hexact⟩ :=
    exists_given_resolve hwa hwb hab hfresh howner hwaitsOf hforced
  refine ⟨_, _, tick, htick, hfa, ⟨⟨givenA, rfl⟩, rfl⟩, hfb, ⟨⟨givenB, rfl⟩, rfl⟩, ?_, ?_⟩
  · intro huncapped m maxTicks hm
    refine ⟨Performance.resumes_waitFor huncapped hgiven hm, fun hlt hle => ?_⟩
    omega
  · rintro huncapped ⟨e, he, rfl⟩
    obtain ⟨exact, hfirst⟩ := exists_firstTick he
    rw [← hexact exact hfirst]
    exact Performance.first_announcement huncapped hfirst

def lead : AnimatedWidget :=
  .of { program := .ofBlock [.pause (.int 2), .sync "x"], settings := {}
        widget := ⟨1, 1⟩, container := ⟨9, 9⟩, start := .plain 0 0, eventTicks := ∅
        source := fun _ => none }

def follower : AnimatedWidget :=
  .of { program := .ofBlock [.waitFor "x" (.int 5)], settings := {}
        widget := ⟨1, 1⟩, container := ⟨9, 9⟩, start := .plain 0 0, eventTicks := ∅
        source := fun _ => none }

/-- The widget that waits comes first. -/
def duo : Coordinator AnimatedWidget :=
  ((empty {}).registerEach [("a", follower), ("b", lead)]).value

theorem registered_widgets_meet_duo :
    ∃ fa fb, duo.resolve.value.1.widgets.find? "b" = some fa ∧
      duo.resolve.value.1.widgets.find? "a" = some fb ∧ fa.performance.AnnouncesAt "x" 2 ∧
      Resumes (fb.performance.perform none).timeline.frames 0 2 (0, 0) := by
  have hrun : (duo.resolve.value.2.forced, duo.resolve.value.1.eventTick "x",
      (duo.resolve.value.1.widgets.find? "a").map
        fun w => (w.performance.outcome none).1.recorder.capped,
      (duo.resolve.value.1.widgets.find? "b").map
        fun w => ((w.performance.outcome none).1.recorder.capped,
          (w.performance.perform none).timeline.syncs)) =
      ([], some 2, some false, some (false, [⟨"x", 2⟩])) := by cbv
  simp only [Prod.mk.injEq] at hrun
  obtain ⟨hforced, htwo, hfollower, hlead⟩ := hrun
  have ha : ("b", lead) ∈ [("a", follower), ("b", lead)] := by simp
  have hb : ("a", follower) ∈ [("a", follower), ("b", lead)] := by simp
  have hdeclares : "x" ∈ declares lead := by decide
  have hnone : "a" ∉ duo.resolve.value.2.forced := by
    rw [hforced]
    exact List.not_mem_nil
  obtain ⟨fa, fb, tick, htick, hfa, -, hfb, ⟨⟨ticks, hfbp⟩, -⟩, hmeets, hannounces⟩ :=
    registered_widgets_meet {} (by decide) ha hb (by decide) hdeclares (by decide) (by decide)
      (c := duo) rfl hnone
  rw [htwo, Option.some.injEq] at htick
  subst htick
  rw [hfa, Option.map_some, Option.some.injEq, Prod.mk.injEq] at hlead
  rw [hfb, Option.map_some, Option.some.injEq] at hfollower
  refine ⟨fa, fb, hfa, hfb, hannounces hlead.1 ?_, ?_⟩
  · rw [hlead.2]
    exact ⟨_, List.mem_singleton_self _, rfl⟩
  · have hlimit : ∀ p : Performance, 0 < p.limit none := fun _ => Nat.le_max_left _ _
    have hwait : fb.performance.Executing none
        (.start fb.performance.program fb.performance.recorder) (.waitFor "x" (.int 5)) := by
      rw [hfbp]
      exact ⟨.refl, _, _, rfl, rfl, hlimit _, hlimit _⟩
    have hpause := (hmeets hfollower _ _ hwait).1
    rw [hfbp] at hpause ⊢
    exact hpause

end Coordinator
end Choreography
