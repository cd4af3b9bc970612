import Choreography.Proofs.Findings
import Choreography.Proofs.Footprints
import Choreography.Proofs.Occurrences

/-! # Playback

Playback shows only the frames before the period, over and over. What it shows of a frame after the
period agrees with that frame exactly in what the period repeats. The period of a looping movement
is kept if the later frames repeat the places of its cycle; their marks and the events after it are
not looked at. -/
namespace Choreography
namespace Timeline

variable {β : Type} {t : Timeline} {φ : Frame → β}

/-- One period later a frame is the same as far as `φ` tells. -/
def RepeatsBy (t : Timeline) (φ : Frame → β) : Prop :=
  ∀ cycle i f g, t.period = some cycle → t.frames[cycle + i]? = some f → t.frames[i]? = some g →
    φ f = φ g

theorem length_of_later {cycle i : Nat} {f : Frame} (hcycle : t.period = some cycle)
    (hf : t.frames[cycle + i]? = some f) : t.length = cycle := by
  obtain ⟨hlt, -⟩ := Array.getElem?_eq_some_iff.mp hf
  simp only [length, hcycle]
  omega

theorem frameAt_of_lt {tick : Nat} (h : tick < t.length) : t.frameAt tick = t.frames[tick]? := by
  have hpos : t.length ≠ 0 := by omega
  simp [frameAt, index?, hpos, Nat.mod_eq_of_lt h]

/-- A period that repeats the frames by `φ` repeats them any number of times. -/
theorem RepeatsBy.frameAt (hpos : ∀ cycle, t.period = some cycle → 0 < cycle) (h : t.RepeatsBy φ)
    {tick : Nat} {f : Frame} (hf : t.frames[tick]? = some f) :
    ∃ g, t.frameAt tick = some g ∧ φ g = φ f := by
  induction tick using Nat.strong_induction_on generalizing f with
  | _ tick ih =>
    have htotal := (Array.getElem?_eq_some_iff.mp hf).1
    by_cases hlt : tick < t.length
    · exact ⟨f, (frameAt_of_lt hlt).trans hf, rfl⟩
    · cases hcycle : t.period with
      | none =>
        simp only [length, hcycle] at hlt
        exact absurd htotal hlt
      | some cycle =>
        have hle : cycle ≤ tick := by
          simp only [length, hcycle] at hlt
          omega
        -- One period earlier the same frame is shown.
        obtain ⟨i, rfl⟩ := Nat.exists_eq_add_of_le hle
        have hcyclePos := hpos cycle hcycle
        have hearlier := Array.getElem?_eq_getElem (show i < t.frames.size by omega)
        obtain ⟨g, hg, hsame⟩ := ih i (by omega) hearlier
        have hlength := length_of_later hcycle hf
        refine ⟨g, ?_, hsame.trans (h cycle i f _ hcycle hf hearlier).symm⟩
        rw [Nat.add_comm, ← hlength, frameAt_add_length]
        exact hg

theorem repeatsBy_iff (hpos : ∀ cycle, t.period = some cycle → 0 < cycle) :
    t.RepeatsBy φ ↔
      ∀ tick f, t.frames[tick]? = some f → ∃ g, t.frameAt tick = some g ∧ φ g = φ f := by
  constructor
  · intro h tick f hf
    exact h.frameAt hpos hf
  · intro h cycle i f g hcycle hf hg
    obtain ⟨shown, hshown, hsame⟩ := h _ f hf
    obtain ⟨shown', hshown', hsame'⟩ := h i g hg
    rw [Nat.add_comm, ← length_of_later hcycle hf, frameAt_add_length, hshown'] at hshown
    cases hshown
    rw [← hsame, ← hsame']

end Timeline

def Frame.marks (f : Frame) : Bool × Bool × Bool := (f.pause, f.pauseEnd, f.terminal)

namespace Recorder

theorem coords_of_repeats {frames : Array Frame} {cycle i : Nat} {f g : Frame}
    (h : repeats frames cycle = true) (hf : frames[cycle + i]? = some f)
    (hg : frames[i]? = some g) : f.coords = g.coords := by
  have hlt := (Array.getElem?_eq_some_iff.mp hf).1
  have hmem : cycle + i ∈ List.range' cycle (frames.size - cycle) := by
    rw [List.mem_range'_1]
    omega
  have hsame := List.all_eq_true.mp h _ hmem
  rw [Nat.add_sub_cancel_left] at hsame
  simp only [hf, hg] at hsame
  exact (f.samePlace_iff g).mp hsame

end Recorder

namespace Machine
open Recorder

/-- Only a turn that executes a PERIOD with a positive value declares one. -/
theorem explicitPeriod_advance (settings : EngineSettings) {limit : Nat} {m : Machine}
    (hm : m.recorder.Following)
    (h : ∀ e, m.AtStatement limit (.period e) → m.recorder.env.evalInteger e ≤ 0) :
    (m.advance settings limit).recorder.explicitPeriod = m.recorder.explicitPeriod := by
  rcases advance_cases settings limit m with ⟨why, hstop⟩ | ⟨top, below, hstack, hsteps, hframes⟩
  · rw [hstop]
    rfl
  · rw [advance_eq_turn hstack hsteps hframes]
    rcases turn_cases settings top below hm with ⟨s, f, hs, hf, hturn⟩ | hquiet
    · have hat : m.AtStatement limit s := ⟨top, below, hstack, hs, hsteps, hframes⟩
      rw [hturn]
      change (f m.recorder).follow.explicitPeriod = _
      rw [follow_same]
      refine (Footprint.of_effect hf m.recorder).explicitPeriod fun e he => h e ?_
      rw [← he]
      exact hat
    · rw [hquiet]

end Machine

namespace Performance
open Machine Recorder Coordinator

variable {p : Performance} {maxSteps : Option Nat}

def DeclaresNoPeriod (p : Performance) (maxSteps : Option Nat) : Prop :=
  ∀ m e, p.Executing maxSteps m (.period e) → m.recorder.env.evalInteger e ≤ 0

theorem explicitPeriod_outcome (h : p.DeclaresNoPeriod maxSteps) :
    (p.outcome maxSteps).1.recorder.explicitPeriod = none := by
  refine outcome_induction (P := fun r => r.explicitPeriod = none) rfl fun m hm hnone => ?_
  rw [explicitPeriod_advance p.settings (following_reaches hm (following_start _ _ _ _))]
  · exact hnone
  · exact fun e he => h m e ⟨hm, he⟩

theorem period_perform (p : Performance) (maxSteps : Option Nat) :
    (p.perform maxSteps).timeline.period =
      (p.outcome maxSteps).1.recorder.period.filter (0 < ·) := by
  have hclosed : (p.outcome maxSteps).1.closeAll.period =
      (p.outcome maxSteps).1.recorder.period := by
    rw [quiet_closeAll (p.outcome maxSteps).1]
    rfl
  rw [← hclosed]
  rfl

theorem pos_of_period_perform {cycle : Nat}
    (h : (p.perform maxSteps).timeline.period = some cycle) : 0 < cycle := by
  rw [period_perform, Option.filter_eq_some_iff] at h
  exact of_decide_eq_true h.2

/-- A period that no PERIOD declares repeats the places of its frames. -/
theorem repeatsBy_coords (h : p.DeclaresNoPeriod maxSteps) :
    (p.perform maxSteps).timeline.RepeatsBy Frame.coords := by
  intro cycle i f g hcycle hf hg
  have hpos := pos_of_period_perform hcycle
  rw [period_perform, Recorder.period, explicitPeriod_outcome h] at hcycle
  obtain ⟨hkept, -⟩ := Option.filter_eq_some_iff.mp hcycle
  obtain ⟨-, hrepeats⟩ := Option.filter_eq_some_iff.mp hkept
  have hlater := (Array.getElem?_eq_some_iff.mp hf).1
  rw [frames_perform] at hf hg hlater
  split at hf
  · -- The one frame of an empty run is not a later one.
    rename_i hempty
    rw [if_pos hempty] at hlater
    simp at hlater
    omega
  · rename_i hsome
    rw [if_neg hsome] at hg
    exact coords_of_repeats hrepeats hf hg

/-- Playback without a declared period retraces the generated places, and starts over after its last
frame. -/
theorem playback_retraces (p : Performance) (maxSteps : Option Nat)
    (h : p.DeclaresNoPeriod maxSteps) :
    (∀ tick f, (p.perform maxSteps).timeline.frames[tick]? = some f →
      ∃ g, (p.perform maxSteps).timeline.frameAt tick = some g ∧ g.coords = f.coords) ∧
    ∀ tick, (p.perform maxSteps).timeline.frameAt (tick + (p.perform maxSteps).timeline.length) =
      (p.perform maxSteps).timeline.frameAt tick :=
  ⟨fun _ _ hf => (repeatsBy_coords h).frameAt (fun _ => pos_of_period_perform) hf,
    fun tick => Timeline.frameAt_add_length _ tick⟩

/-- Without PERIOD in the program none is declared. -/
theorem declaresNoPeriod_of_places
    (h : (p.program.places.all fun place => place.statement.kind != "period") = true) :
    p.DeclaresNoPeriod maxSteps := by
  intro m e he
  have hkind := he.holds (P := (·.kind != "period")) h
  simp [Statement.kind] at hkind

def swing : Statement := .scrollBounce (.along .right .one)

theorem playback_retraces_swings :
    let t := ((playing [swing, swing]).perform none).timeline
    (playing [swing, swing]).DeclaresNoPeriod none ∧ t.total = 6 ∧ t.length = 3 ∧
      t.frames[4]?.map Frame.coords = some (1, 0) ∧ (t.frameAt 4).map Frame.coords = some (1, 0) ∧
      t.frameAt (4 + t.length) = t.frameAt 4 := by
  intro t
  have hperiod : (playing [swing, swing]).DeclaresNoPeriod none :=
    declaresNoPeriod_of_places (by decide)
  obtain ⟨hretraces, hloops⟩ := playback_retraces (playing [swing, swing]) none hperiod
  have hframe : t.frames[4]?.map Frame.coords = some (1, 0) := by cbv
  obtain ⟨f, hf, hcoords⟩ := Option.map_eq_some_iff.mp hframe
  obtain ⟨g, hg, hsame⟩ := hretraces 4 f hf
  have hshown : t.frameAt 4 = some g := hg
  refine ⟨hperiod, by cbv, by cbv, hframe, ?_, hloops 4⟩
  rw [hshown, Option.map_some, hsame, hcoords]

/-- Playback shows the marks of all frames and the first announcements of all events exactly if the
kept period repeats the marks too and every event is announced before it ends. -/
theorem playback_shows_marks_iff (p : Performance) (maxSteps : Option Nat)
    (hend : (p.outcome maxSteps).1.recorder.capped = false) :
    let t := (p.perform maxSteps).timeline
    ((∀ tick f, t.frames[tick]? = some f → ∃ g, t.frameAt tick = some g ∧ g.marks = f.marks) ∧
      ∀ event tick, firstTick t.syncs event = some tick → tick < t.length) ↔
    (t.RepeatsBy Frame.marks ∧ ∀ event tick cycle, firstTick t.syncs event = some tick →
      t.period = some cycle → tick < cycle) := by
  intro t
  rw [Timeline.repeatsBy_iff fun _ => pos_of_period_perform]
  refine and_congr_right fun _ => ⟨fun h event tick cycle htick hcycle => ?_,
    fun h event tick htick => ?_⟩
  · have hlength := h event tick htick
    simp only [Timeline.length, hcycle] at hlength
    omega
  · obtain ⟨-, -, -, -, f, hf, -⟩ := first_announcement hend htick
    have htotal := (Array.getElem?_eq_some_iff.mp hf).1
    unfold Timeline.length
    split
    · rename_i cycle hcycle
      have hearly := h event tick cycle htick hcycle
      exact Nat.lt_min.mpr ⟨hearly, htotal⟩
    · exact htotal

def calledSwings : Performance := playing [.sync "swing", swing, .sync "swing", swing]

theorem playback_shows_marks_iff_calledSwings :
    let t := (calledSwings.perform none).timeline
    (calledSwings.outcome none).1.recorder.capped = false ∧ t.total = 8 ∧ t.length = 4 ∧
      (∀ tick f, t.frames[tick]? = some f → ∃ g, t.frameAt tick = some g ∧ g.marks = f.marks) ∧
      ∀ event tick, firstTick t.syncs event = some tick → tick < t.length := by
  intro t
  have hend : (calledSwings.outcome none).1.recorder.capped = false := by cbv
  have hperiod : t.period = some 4 := by cbv
  have hsyncs : t.syncs = [⟨"swing", 0⟩, ⟨"swing", 4⟩] := by cbv
  have hplain : t.frames.all (·.marks == (false, false, false)) = true := by cbv
  have hmarks := Array.all_eq_true_iff_forall_mem.mp hplain
  refine ⟨hend, by cbv, by cbv, (playback_shows_marks_iff calledSwings none hend).mpr ⟨?_, ?_⟩⟩
  · intro cycle i f g _ hf hg
    rw [eq_of_beq (hmarks f (Array.mem_of_getElem? hf)),
      eq_of_beq (hmarks g (Array.mem_of_getElem? hg))]
  · intro event tick cycle htick hcycle
    have hfirst : firstTick t.syncs event = some tick := htick
    have hcycle' : t.period = some cycle := hcycle
    rw [hperiod, Option.some.injEq] at hcycle'
    rw [hsyncs, firstTick_cons, firstTick_cons] at hfirst
    split at hfirst
    · cases hfirst
      rw [← hcycle']
      exact Nat.zero_lt_succ 3
    · simp_all [firstTick]

/-- A pause or an announcement where a swing may repeat its places is not shown: the period of the
swing is kept, and playback starts over before it. -/
theorem mark_hidden_by_swing :
    let held := playing [swing, .move (.along .right .one), .pause .one]
    let sent := playing [swing, .move (.along .right .one), .sync "go"]
    (held.DeclaresNoPeriod none ∧ (held.outcome none).1.recorder.capped = false ∧
      (held.perform none).timeline.frames[4]?.map Frame.marks = some (true, true, false) ∧
      ((held.perform none).timeline.frameAt 4).map Frame.marks = some (false, false, false)) ∧
    sent.DeclaresNoPeriod none ∧ (sent.outcome none).1.recorder.capped = false ∧
      firstTick (sent.perform none).timeline.syncs "go" = some 4 ∧
      (sent.perform none).timeline.length = 3 := by
  intro held sent
  have hheld : held.DeclaresNoPeriod none := declaresNoPeriod_of_places (by decide)
  have hsent : sent.DeclaresNoPeriod none := declaresNoPeriod_of_places (by decide)
  exact ⟨⟨hheld, by cbv, by cbv, by cbv⟩, hsent, by cbv, by cbv, by cbv⟩

end Performance
end Choreography
