import Choreography.Proofs.Lockstep
import Choreography.Proofs.Progress
import Choreography.Proofs.Tables
import Mathlib

/-! # Smoothing while a run goes on

A run that closes gaps while it adds frames gives what smoothing makes of the frames of a run that
does not. The two run in lockstep: conditions see places only, and a gap is closed without moving
the last frame. -/
namespace Choreography
namespace Recorder
open Smoothing

/-- A recorder with the smoothed frames of another one, and otherwise the same to movements. -/
structure Smoothed (r g : Recorder) : Prop where
  env : r.env = g.env
  frames : g.frames = (Progress.of r.frames).frames
  raw : r.smoothing = false
  smooth : g.smoothing = true
  cap : r.maxPositions = g.maxPositions
  segment : r.activeSegment = g.activeSegment
  rawTicks : r.eventTicks = ∅
  smoothTicks : g.eventTicks = ∅
  announced : r.announced = g.announced
  clips : r.clips = g.clips
  slide : r.slide = g.slide
  finishedScrolls : r.finishedScrolls = g.finishedScrolls

/-- Events are announced at the new indices of their frames. -/
structure Synced (r g : Recorder) : Prop where
  syncs : g.syncs = r.syncs.map fun e => { e with tick := (Progress.of r.frames).remap e.tick }
  bounded : ∀ e ∈ r.syncs, e.tick < r.frames.size

def Full (limit : Nat) (r : Recorder) : Prop := min limit r.maxPositions ≤ r.frames.size

variable {r g : Recorder} {limit : Nat}

theorem Smoothed.waitLength (h : Smoothed r g) (event : String) :
    Movement.waitLength r event = Movement.waitLength g event := by
  funext n
  simp only [Movement.waitLength, h.rawTicks, h.smoothTicks, Table.find?_emptyCollection,
    h.announced]

theorem Smoothed.view (h : Smoothed r g) : r.view = g.view := by
  have hlast : r.frames.back? = g.frames.back? := by rw [h.frames, back?_of]
  unfold Recorder.view
  rw [h.env, hlast, h.clips, h.slide, h.finishedScrolls]

theorem Smoothed.size_le (h : Smoothed r g) : r.frames.size ≤ g.frames.size := by
  rw [h.frames]
  exact size_le_of _

theorem Smoothed.isEmpty_eq (h : Smoothed r g) : g.frames.isEmpty = r.frames.isEmpty := by
  by_cases hempty : r.frames = #[]
  · rw [h.frames, hempty]
    rfl
  · have hsize := h.size_le
    have hne : g.frames ≠ #[] := by
      intro hg
      rw [hg] at hsize
      exact hempty (Array.eq_empty_of_size_eq_zero (Nat.le_zero.mp hsize))
    rw [Array.isEmpty_eq_false_iff.mpr hempty, Array.isEmpty_eq_false_iff.mpr hne]

theorem Synced.syncs_of_isEmpty (h : Synced r g) (hempty : r.frames.isEmpty = true) :
    r.syncs = #[] := by
  refine Array.eq_empty_iff_forall_not_mem.mpr fun e he => ?_
  have hlt := h.bounded e he
  rw [Array.isEmpty_iff.mp hempty] at hlt
  exact Nat.not_lt_zero _ hlt

/-- Unless the cap is reached, both recorders keep a frame. -/
theorem Smoothed.emit_both (limit : Nat) (h : Smoothed r g) (f : Frame) :
    Full limit (g.emit f).1 ∨
      (r.emit f = ({ r with frames := r.frames.push (r.label f) }, true) ∧
        g.emit f = ({ g with frames := (Progress.of (r.frames.push (r.label f))).frames }, true)) := by
  have hlabel : g.label f = r.label f := by
    unfold label
    rw [h.segment]
  have hfiller : g.filler f = inserted r.frames.back? (r.label f) := by
    rw [filler, if_pos h.smooth, hlabel, h.frames, back?_of]
  cases hg : g.emit f with
  | mk g' kept =>
    cases kept with
    | false =>
      left
      have hfull : g'.maxPositions ≤ g'.frames.size := (full_of_emit hg).1
      change min limit g'.maxPositions ≤ g'.frames.size
      omega
    | true =>
      have heq := eq_of_emit hg
      rw [hlabel, hfiller, h.frames, ← frames_of_push] at heq
      by_cases hcap : r.maxPositions ≤ r.frames.size
      · left
        have hsize := size_le_of (r.frames.push (r.label f))
        have hmax : g'.maxPositions = r.maxPositions := by rw [heq, h.cap]
        have hframes : g'.frames = (Progress.of (r.frames.push (r.label f))).frames := by rw [heq]
        rw [Array.size_push] at hsize
        simp only [Full, hmax, hframes]
        omega
      · refine .inr ⟨?_, by rw [heq]⟩
        simp [Recorder.emit, h.raw, push, hcap]

theorem Synced.follow (h : Synced r g) : Synced r.follow g.follow := by
  have hsame : ∀ r : Recorder, r.follow.syncs = r.syncs := by
    intro r
    unfold Recorder.follow
    split <;> rfl
  refine ⟨?_, ?_⟩
  · rw [hsame, hsame, frames_follow]
    exact h.syncs
  · rw [hsame, frames_follow]
    exact h.bounded

theorem Synced.of_push {f : Frame} (h : Synced r g) {r' g' : Recorder}
    (hr : r' = { r with frames := r.frames.push f }) (hg : g'.syncs = g.syncs) :
    Synced r' g' := by
  subst hr
  refine ⟨?_, fun e he => ?_⟩
  · rw [hg, h.syncs]
    refine Array.map_congr_left fun e he => ?_
    rw [remap_of_push (h.bounded e he)]
  · have hlt := h.bounded e he
    simp only [Array.size_push]
    omega

/-- Closing gaps while frames are added keeps recorders close, unless the cap is reached. -/
theorem Smoothed.act (a : Act) (h : Smoothed r g ∧ Synced r g) :
    Full limit (a.perform g).1 ∨
      ((Smoothed (a.perform r).1 (a.perform g).1 ∧ Synced (a.perform r).1 (a.perform g).1) ∧
        (a.perform r).2 = (a.perform g).2) := by
  obtain ⟨h, hsynced⟩ := h
  cases a with
  | note notices => exact .inr ⟨⟨{ h with }, { hsynced with }⟩, rfl⟩
  | emit f =>
    rcases h.emit_both limit f with hfull | ⟨hr, hg⟩
    · exact .inl hfull
    · simp only [Act.perform, hr, hg]
      exact .inr ⟨⟨{ h with frames := rfl }, hsynced.of_push rfl rfl⟩, trivial⟩
  | setClip site t =>
    refine .inr ⟨⟨{ h with clips := ?_ }, { hsynced with }⟩, rfl⟩
    simp only [Act.perform, setClip, h.clips]
  | setSlide t => exact .inr ⟨⟨{ h with slide := rfl }, { hsynced with }⟩, rfl⟩
  | finishScroll site =>
    refine .inr ⟨⟨{ h with finishedScrolls := ?_ }, { hsynced with }⟩, rfl⟩
    simp only [Act.perform, finishScroll, h.finishedScrolls]
  | declarePeriod ticks => exact .inr ⟨⟨{ h with }, { hsynced with }⟩, rfl⟩
  | endCycle =>
    refine .inr ⟨?_, rfl⟩
    simp only [Act.perform, setImplicitPeriod]
    split <;> split <;> exact ⟨{ h with }, { hsynced with }⟩

theorem Smoothed.follow (h : Smoothed r g) : Smoothed r.follow g.follow := by
  have hlast : g.frames.back? = r.frames.back? := by rw [h.frames, back?_of]
  unfold Recorder.follow
  rw [hlast]
  split
  · refine { h with env := ?_ }
    simp only [h.env]
  · exact h

/-- Nothing is put between the last frame and one at the place where the widget is. -/
theorem inserted_current (h : r.Following) : inserted r.frames.back? (r.label r.current) = [] := by
  cases hlast : r.frames.back? with
  | none => rfl
  | some f =>
    refine inserted_of_samePlace ((h f hlast).trans ?_)
    rfl

/-- An event is announced at the new index of the frame that holds the widget. -/
theorem Smoothed.sync (event : String) (h : Smoothed r g) (hsynced : Synced r g)
    (hr : r.Following) :
    Full limit (Movement.sync event g) ∨
      (Smoothed (Movement.sync event r) (Movement.sync event g) ∧
        Synced (Movement.sync event r) (Movement.sync event g)) := by
  have hannounced : Smoothed (r.announce event) (g.announce event) := by
    refine { h with announced := ?_ }
    simp only [announce, h.announced]
  have hcurrent : (g.announce event).current = (r.announce event).current := by
    simp only [current, hannounced.env]
  have hnone : inserted r.frames.back? ((r.announce event).label (r.announce event).current) = [] :=
    inserted_current hr
  simp only [Movement.sync, hcurrent]
  rcases hannounced.emit_both limit (r.announce event).current with hfull | ⟨hr', hg'⟩
  · exact .inl hfull
  · simp only [hr', hg']
    refine .inr ⟨{ hannounced with frames := rfl }, ?_, fun e he => ?_⟩
    · have hlast : (Progress.of ((r.announce event).frames.push ((r.announce event).label
          (r.announce event).current))).remap r.frames.size = g.frames.size := by
        rw [h.frames]
        refine (remap_size r.frames _).trans ?_
        rw [hnone]
        rfl
      have hbefore : (r.syncs.map fun e => { e with
          tick := (Progress.of ((r.announce event).frames.push ((r.announce event).label
            (r.announce event).current))).remap e.tick }) = g.syncs := by
        rw [hsynced.syncs]
        refine Array.map_congr_left fun e he => ?_
        exact congrArg _ (remap_of_push (hsynced.bounded e he) _)
      change g.syncs.push ⟨event, g.frames.size⟩ = (r.syncs.push ⟨event, r.frames.size⟩).map _
      rw [Array.map_push, hbefore]
      simp only [hlast]
    · simp only [announce, Array.mem_push] at he
      simp only [announce, Array.size_push]
      rcases he with he | rfl
      · have hlt := hsynced.bounded e he
        omega
      · exact Nat.lt_succ_self _

theorem kept_full (limit : Nat) : Kept (Full limit) := by
  refine kept_of_later fun r r' h hfull => ?_
  have hsize := h.size_le
  unfold Full at hfull ⊢
  rw [h.cap]
  omega

/-- Runs that differ only in when gaps are closed are in lockstep. -/
theorem coupling_smoothed (limit : Nat) :
    Coupling limit (fun _ => True) (fun _ _ => True)
      (fun r g => (Smoothed r g ∧ Synced r g) ∧ r.Following) (fun _ g => Full limit g) where
  left g := kept_of_later fun _ _ _ h => h
  right r := kept_full limit
  env h := h.1.1.env
  limits {r g} h := by
    by_cases hfull : Full limit g
    · exact .inl hfull
    · have hsize := h.1.1.size_le
      unfold Full at hfull
      exact .inr (by omega)
  starts _ := trivial
  effect {r g site s f} _ hf h := by
    obtain ⟨⟨hsmoothed, hsynced⟩, hr⟩ := h
    have heffect : Full limit (f g) ∨ (Smoothed (f r) (f g) ∧ Synced (f r) (f g)) := by
      rcases Statement.composed_of_effect hf with ⟨event, -, rfl⟩ | hcomposed
      · exact hsmoothed.sync event hsynced hr
      · have hboth := Scripted.couples (R := fun r g => Smoothed r g ∧ Synced r g)
          (L := fun _ g => Full limit g) (fun _ _ _ h => h) (fun a _ => (kept_full limit).act a)
          (fun r g h => h.1.view) (fun event r g _ h => h.1.waitLength event)
          (fun a r g h => Smoothed.act a h) hcomposed ⟨hsmoothed, hsynced⟩
        exact hboth.imp_right fun h => h.1
    rcases heffect with hfull | ⟨h, hs⟩
    · exact .inl ((kept_full limit).follow _ hfull)
    · exact .inr ⟨⟨h.follow, hs.follow⟩, following_follow _⟩
  follow h := ⟨⟨h.1.1.follow, h.1.2.follow⟩, following_follow _⟩
  note notices h := ⟨⟨{ h.1.1 with }, { h.1.2 with }⟩, (Quiet.note _ _).following h.2⟩
  setSegment name h :=
    ⟨⟨{ h.1.1 with segment := rfl }, { h.1.2 with }⟩, (Quiet.setSegment _ _).following h.2⟩
  closeSpan name _ _ _ h :=
    ⟨⟨{ h.1.1 with }, { h.1.2 with }⟩, (Quiet.closeSpan _ _ _).following h.2⟩
  markLoopStart passes h := by
    refine ⟨?_, (Quiet.markLoopStart _ _).following h.2⟩
    obtain ⟨⟨hsmoothed, hsynced⟩, -⟩ := h
    unfold Machine.markLoopStart
    split
    · exact ⟨hsmoothed, hsynced⟩
    · split <;> split <;> exact ⟨{ hsmoothed with }, { hsynced with }⟩

end Recorder

namespace Performance
open Machine Smoothing

def withSmoothing (p : Performance) (on : Bool) : Performance :=
  { p with settings := { p.settings with smoothing := on } }

theorem outcome_withSmoothing (p : Performance) (on : Bool) (maxSteps : Option Nat) :
    (p.withSmoothing on).outcome maxSteps =
      (Machine.start p.program (p.withSmoothing on).recorder).run p.settings (p.limit maxSteps) := by
  have hturns : ∀ m : Machine, m.advance (p.withSmoothing on).settings (p.limit maxSteps) =
      m.advance p.settings (p.limit maxSteps) := fun _ => rfl
  exact run_congr hturns _

theorem smoothed_outcome (p : Performance) (maxSteps : Option Nat) (hticks : p.eventTicks = ∅) :
    Recorder.Full (p.limit maxSteps) ((p.withSmoothing true).outcome maxSteps).1.recorder ∨
      (Recorder.Smoothed ((p.withSmoothing false).outcome maxSteps).1.recorder
        ((p.withSmoothing true).outcome maxSteps).1.recorder ∧
      Recorder.Synced ((p.withSmoothing false).outcome maxSteps).1.recorder
        ((p.withSmoothing true).outcome maxSteps).1.recorder) := by
  have hstart : Recorder.Smoothed (p.withSmoothing false).recorder (p.withSmoothing true).recorder :=
    ⟨rfl, rfl, rfl, rfl, rfl, rfl, hticks, hticks, rfl, rfl, rfl, rfl⟩
  have hsynced : Recorder.Synced (p.withSmoothing false).recorder (p.withSmoothing true).recorder := by
    refine ⟨?_, fun e he => ?_⟩
    · simp [recorder, Recorder.start]
    · simp [recorder, Recorder.start] at he
  have hfollowing : ∀ on : Bool, (p.withSmoothing on).recorder.Following :=
    fun on => Recorder.following_start _ _ _ _
  have hstack : Stacks (fun _ _ => True) [⟨[], p.program.statements, 0, .block⟩]
      [⟨[], p.program.statements, 0, .block⟩] := .cons (.intro _ _ _ .block) .nil
  have halike : Alike (fun _ _ => True)
      (fun r g => (Recorder.Smoothed r g ∧ Recorder.Synced r g) ∧ r.Following)
      (Machine.start p.program (p.withSmoothing false).recorder)
      (Machine.start p.program (p.withSmoothing true).recorder) :=
    ⟨⟨⟨hstart, hsynced⟩, hfollowing false⟩, hstack, rfl, rfl, rfl, rfl⟩
  have hrun := run_like p.settings (Recorder.coupling_smoothed (p.limit maxSteps)) halike
    (hfollowing false) (hfollowing true) fun _ _ _ _ _ _ _ => trivial
  rw [outcome_withSmoothing, outcome_withSmoothing]
  rcases hrun with hfull | ⟨hlast, -⟩
  · exact .inl hfull
  · exact .inr hlast.recorder.1

/-- A run that meets a limit has as many frames on its timeline as the limit. -/
theorem not_full_of_total_lt {p : Performance} {maxSteps : Option Nat}
    (hlimit : (p.perform maxSteps).timeline.total < p.limit maxSteps)
    (hcap : (p.perform maxSteps).timeline.total < p.settings.maxPositions) :
    ¬ Recorder.Full (p.limit maxSteps) (p.outcome maxSteps).1.recorder := by
  have hle : (p.outcome maxSteps).1.recorder.frames.size ≤ (p.perform maxSteps).timeline.total := by
    rw [Timeline.total, frames_perform]
    split
    · rename_i hempty
      rw [Array.isEmpty_iff_size_eq_zero.mp hempty]
      exact Nat.zero_le _
    · exact Nat.le_refl _
  have hmax : (p.outcome maxSteps).1.recorder.maxPositions = p.settings.maxPositions :=
    (kept_run (Recorder.kept_later p.recorder) (Recorder.following_start _ _ _ _)
      (Recorder.Later.refl _)).cap
  unfold Recorder.Full
  omega

/-- Closing gaps while frames are added and closing them afterwards is the same, if the first run
ends before its limits on frames. -/
theorem smoothed_generation (p : Performance) (maxSteps : Option Nat) (hticks : p.eventTicks = ∅)
    (hlimit : ((p.withSmoothing true).perform maxSteps).timeline.total < p.limit maxSteps)
    (hcap : ((p.withSmoothing true).perform maxSteps).timeline.total < p.settings.maxPositions) :
    ((p.withSmoothing true).perform maxSteps).timeline.frames =
        (smooth ((p.withSmoothing false).perform maxSteps).timeline).frames ∧
      ((p.withSmoothing true).perform maxSteps).timeline.syncs =
        (smooth ((p.withSmoothing false).perform maxSteps).timeline).syncs := by
  have hgen := frames_perform (p.withSmoothing true) maxSteps
  have hraw := frames_perform (p.withSmoothing false) maxSteps
  have hstart : (p.withSmoothing true).start = (p.withSmoothing false).start := rfl
  rcases p.smoothed_outcome maxSteps hticks with hfull | ⟨hsmoothed, hsynced⟩
  · exact absurd hfull (not_full_of_total_lt hlimit hcap)
  · simp only [smooth, Timeline.build, syncs_perform]
    generalize ((p.withSmoothing true).outcome maxSteps).1.recorder = g at *
    generalize ((p.withSmoothing false).outcome maxSteps).1.recorder = r at *
    rw [hgen, hraw, hsmoothed.isEmpty_eq, hstart]
    cases hempty : r.frames.isEmpty with
    | true =>
      rw [hsynced.syncs, hsynced.syncs_of_isEmpty hempty]
      exact ⟨rfl, by simp⟩
    | false =>
      simp only [Bool.false_eq_true, if_false]
      exact ⟨hsmoothed.frames, by rw [hsynced.syncs, Array.toList_map]⟩

def corner : Performance where
  program := .ofBlock [
    .moveTo ⟨.int 3, .int 2⟩ ⟨.int 0, .int 0⟩ (.int 3) .one,
    .sync "back",
    .move (.along .right (.int 3))]
  settings := {}
  widget := ⟨1, 1⟩
  container := ⟨9, 9⟩
  start := .plain 0 0
  eventTicks := ∅
  source := fun _ => none

theorem smoothed_generation_corner :
    corner.eventTicks = ∅ ∧
      ((corner.withSmoothing true).perform none).timeline.total < corner.limit none ∧
      ((corner.withSmoothing true).perform none).timeline.total < corner.settings.maxPositions ∧
      ((corner.withSmoothing true).perform none).timeline.frames =
        (smooth ((corner.withSmoothing false).perform none).timeline).frames ∧
      ((corner.withSmoothing true).perform none).timeline.syncs =
        (smooth ((corner.withSmoothing false).perform none).timeline).syncs := by
  have htotal : ((corner.withSmoothing true).perform none).timeline.total = 8 := by cbv
  have hlimit : ((corner.withSmoothing true).perform none).timeline.total < corner.limit none := by
    rw [htotal]
    decide
  have hcap : ((corner.withSmoothing true).perform none).timeline.total <
      corner.settings.maxPositions := by
    rw [htotal]
    decide
  obtain ⟨hframes, hsyncs⟩ := smoothed_generation corner none rfl hlimit hcap
  exact ⟨rfl, hlimit, hcap, hframes, hsyncs⟩

end Performance
end Choreography
