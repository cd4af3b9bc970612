import Choreography.Proofs.Additions
import Choreography.Proofs.Passes
import Choreography.Proofs.Progress

/-! # Waits and announcements of a run

Which frames a wait and an announcement record, and that they are on the timeline of every run
that has executed them and has dropped no frame. -/
namespace Choreography
namespace Recorder
open Smoothing

/-! ### Waits -/

theorem filler_of_paused (r : Recorder) {f : Frame} (hf : f.pause = true) : r.filler f = [] := by
  have hpause : (r.label f).pause = true := (pause_label r f).trans hf
  unfold filler inserted
  cases r.frames.back? <;> simp [isGap, hpause]

theorem filler_of_following {r : Recorder} (h : r.Following) {f : Frame}
    (hf : f.coords = (r.env.x, r.env.y)) : r.filler f = [] := by
  unfold filler
  cases hback : r.frames.back? with
  | none => simp [inserted]
  | some g =>
    rw [inserted_of_samePlace ((h g hback).trans ((coords_label r f).trans hf).symm)]
    simp

theorem emit_of_uncapped {r : Recorder} {f : Frame} (hfiller : r.filler f = [])
    (h : (r.emit f).1.capped = false) :
    r.emit f = ({ r with frames := r.frames.push (r.label f) }, true) := by
  rw [emit_eq_add h, add, hfiller]
  rfl

/-- Nothing goes before the frames of a pause. -/
theorem addAll_pauseFrames (r : Recorder) (place : Frame) (n : Nat) :
    r.addAll (pauseFrames none place n) =
      { r with frames := r.frames ++ (pauseFrames r.activeSegment place n).toArray } := by
  induction n generalizing r with
  | zero => simp [pauseFrames]
  | succ n ih =>
    rw [pauseFrames, addAll_cons, ih, add, filler_of_paused r rfl, pauseFrames, List.toArray_cons,
      ← Array.append_assoc, Array.append_singleton]
    rfl

theorem Composed.uncapped {asked : String → Prop} {f : Recorder → Recorder}
    (hf : Composed asked f) {r : Recorder} (h : (f r).capped = false) : r.capped = false :=
  Later.uncapped (hf.invariant (kept_later r).act (Later.refl r)) h

/-- Frames at the widget's place leave it where the last frame shows it. -/
theorem Following.append {r : Recorder} (hr : r.Following) {frames : List Frame}
    (hframes : ∀ f ∈ frames, f.coords = (r.env.x, r.env.y)) :
    ({ r with frames := r.frames ++ frames.toArray } : Recorder).Following := by
  intro f hf
  simp only [Array.back?_append, Option.or_eq_some_iff] at hf
  rcases hf with hf | ⟨-, hf⟩
  · exact hframes f (Array.mem_toList_iff.mpr (Array.mem_of_back? hf))
  · exact hr f hf

end Recorder

/-- Frames from `c` on show a pause of `w` ticks at a place, and then a frame that goes on there. -/
structure Resumes (frames : Array Frame) (c w : Nat) (place : Int × Int) : Prop where
  paused : ∀ i, i < w → ∃ f, frames[c + i]? = some f ∧ f.pause = true ∧ f.coords = place ∧
    (f.pauseEnd = true ↔ i + 1 = w)
  resumed : ∃ f, frames[c + w]? = some f ∧ f.pause = false ∧ f.coords = place

theorem Resumes.retained {frames frames' : Array Frame} {c w : Nat} {place : Int × Int}
    (h : Resumes frames c w place)
    (hretained : ∀ (i : Nat) (f : Frame), frames[i]? = some f → frames'[i]? = some f) :
    Resumes frames' c w place := by
  refine ⟨fun i hi => ?_, ?_⟩
  · obtain ⟨f, hf, hpause, hcoords, hlast⟩ := h.paused i hi
    exact ⟨f, hretained _ f hf, hpause, hcoords, hlast⟩
  · obtain ⟨f, hf, hpause, hcoords⟩ := h.resumed
    exact ⟨f, hretained _ f hf, hpause, hcoords⟩

open Recorder in
theorem resumes_pauseFrames (frames : Array Frame) (segment : Option String) {place last : Frame}
    (hpause : last.pause = false) (hplace : last.coords = place.coords) (w : Nat) :
    Resumes ((frames ++ (pauseFrames segment place w).toArray).push last) frames.size w
      place.coords := by
  have hsize : (frames ++ (pauseFrames segment place w).toArray).size = frames.size + w := by
    simp only [Array.size_append, List.size_toArray, length_pauseFrames]
  refine ⟨fun i hi => ?_, last, ?_, hpause, hplace⟩
  · obtain ⟨f, hf, hpaused, hcoords, hlast⟩ := getElem?_pauseFrames segment place hi
    refine ⟨f, ?_, hpaused, hcoords, hlast⟩
    rw [Array.getElem?_push, hsize, if_neg (by omega), Array.getElem?_append_right (by omega),
      Nat.add_sub_cancel_left, List.getElem?_toArray]
    exact hf
  · rw [Array.getElem?_push, hsize, if_pos rfl]

namespace Movement
open Recorder Smoothing

/-- A wait that drops no frame holds the widget in place for its length and then goes on there. -/
theorem frames_waitFor {event : String} {maxTicks : Expr} {r : Recorder} (hr : r.Following)
    (h : (waitFor event maxTicks r).capped = false) :
    (waitFor event maxTicks r).frames =
      (r.frames ++ (pauseFrames r.activeSegment r.current
        (waitLength r event (r.env.evalInteger maxTicks).toNat)).toArray).push
          (r.label r.current) := by
  let wait := waitLength r event (r.env.evalInteger maxTicks).toNat
  let waited := (r.noteIntegers [maxTicks]).emitPause r.current wait
  change (waited.emit r.current).1.capped = false at h
  have hlast : Composed (fun _ => False) fun r' => (r'.emit r.current).1 :=
    .act (.emit r.current) rfl
  have hwaited : waited = { r.noteIntegers [maxTicks] with
      frames := r.frames ++ (pauseFrames r.activeSegment r.current wait).toArray } :=
    (emitPause_eq_addAll (hlast.uncapped h)).trans (addAll_pauseFrames _ _ _)
  have hfollowing : waited.Following := by
    rw [hwaited]
    exact Following.append hr fun f hf => coords_of_mem_pauseFrames hf
  have hplace : r.current.coords = (waited.env.x, waited.env.y) := by
    rw [hwaited]
    rfl
  have hemit := emit_of_uncapped (filler_of_following hfollowing hplace) h
  change (waited.emit r.current).1.frames = _
  rw [hemit, hwaited]
  rfl

end Movement

namespace Machine
open Recorder

variable {limit : Nat}

def AtStatement (limit : Nat) (m : Machine) (s : Statement) : Prop :=
  ∃ top below, m.stack = top :: below ∧ top.block[top.index]? = some s ∧ m.steps < limit ∧
    m.recorder.frames.size < limit

theorem AtStatement.advance (settings : EngineSettings) {m : Machine} {s : Statement}
    (h : m.AtStatement limit s) {f : Recorder → Recorder} (hf : ∀ site, s.effect? site = some f) :
    ∃ m', m.advance settings limit = .running m' ∧ m'.recorder = (f m.recorder).follow := by
  obtain ⟨top, below, hstack, hs, hsteps, hframes⟩ := h
  refine ⟨(m.fetch top below).mapRecorder fun r => (f r).follow, ?_, rfl⟩
  rw [advance_eq_turn hstack hsteps hframes]
  exact turn_of_effect hs (hf _)

end Machine

namespace Performance
open Machine Recorder

variable {p : Performance} {maxSteps : Option Nat} {m : Machine} {s : Statement}
  {f : Recorder → Recorder}

structure Executing (p : Performance) (maxSteps : Option Nat) (m : Machine) (s : Statement) :
    Prop where
  reached : Reaches p.settings (p.limit maxSteps) (.start p.program p.recorder) m
  next : m.AtStatement (p.limit maxSteps) s

theorem Executing.following (h : p.Executing maxSteps m s) : m.recorder.Following :=
  following_reaches h.reached (following_start _ _ _ _)

/-- What a statement has recorded stays to the end of the run. -/
theorem Executing.later (h : p.Executing maxSteps m s) (hf : ∀ site, s.effect? site = some f) :
    Later (f m.recorder) (p.outcome maxSteps).1.recorder := by
  obtain ⟨m', hadvance, hm'⟩ := h.next.advance p.settings hf
  have hend : p.outcome maxSteps = m'.run p.settings (p.limit maxSteps) :=
    (Reaches.run_eq h.reached).trans (run_of_running hadvance)
  have hfollowing : m'.recorder.Following := by
    rw [hm']
    exact following_follow _
  have hfirst : Later (f m.recorder) m'.recorder := by
    rw [hm']
    exact Later.follow _
  rw [hend]
  exact kept_run (kept_later (f m.recorder)) hfollowing hfirst

theorem Executing.uncapped (h : p.Executing maxSteps m s) (hf : ∀ site, s.effect? site = some f)
    (hend : (p.outcome maxSteps).1.recorder.capped = false) : (f m.recorder).capped = false :=
  (h.later hf).uncapped hend

theorem getElem?_perform {i : Nat} {g : Frame}
    (hg : (p.outcome maxSteps).1.recorder.frames[i]? = some g) :
    (p.perform maxSteps).timeline.frames[i]? = some g := by
  obtain ⟨hlt, -⟩ := Array.getElem?_eq_some_iff.mp hg
  have hne : ¬ (p.outcome maxSteps).1.recorder.frames.isEmpty = true := by
    rw [Array.isEmpty_iff_size_eq_zero]
    omega
  rw [frames_perform, if_neg hne]
  exact hg

/-- Frames that a movement has recorded are on the timeline. -/
theorem Executing.retained (h : p.Executing maxSteps m s) (hf : ∀ site, s.effect? site = some f)
    {i : Nat} {g : Frame} (hg : (f m.recorder).frames[i]? = some g) :
    (p.perform maxSteps).timeline.frames[i]? = some g :=
  getElem?_perform ((h.later hf).getElem? hg)

/-- A wait for an event whose tick is known lasts until then, but at least one tick and not longer
than allowed. -/
theorem resumes_waitFor {event : String} {maxTicks : Expr} {known : Nat}
    (hend : (p.outcome maxSteps).1.recorder.capped = false)
    (hknown : p.eventTicks.find? event = some known)
    (h : p.Executing maxSteps m (.waitFor event maxTicks)) :
    Resumes (p.perform maxSteps).timeline.frames m.recorder.tick
      (min (m.recorder.env.evalInteger maxTicks).toNat (max 1 (known - m.recorder.tick)))
      m.recorder.current.coords := by
  have hf : ∀ site, (Statement.waitFor event maxTicks).effect? site =
      some (Movement.waitFor event maxTicks) := fun _ => rfl
  have hticks : m.recorder.eventTicks = p.eventTicks :=
    (kept_reaches (kept_later p.recorder) h.reached (following_start _ _ _ _)
      (Later.refl _)).eventTicks
  have hlength : Movement.waitLength m.recorder event (m.recorder.env.evalInteger maxTicks).toNat =
      min (m.recorder.env.evalInteger maxTicks).toNat (max 1 (known - m.recorder.tick)) := by
    simp only [Movement.waitLength, hticks, hknown]
  have hframes := Movement.frames_waitFor h.following (h.uncapped hf hend)
  rw [hlength] at hframes
  have hpaused := resumes_pauseFrames m.recorder.frames m.recorder.activeSegment
    (pause_label m.recorder m.recorder.current) (coords_label m.recorder m.recorder.current)
    (min (m.recorder.env.evalInteger maxTicks).toNat (max 1 (known - m.recorder.tick)))
  rw [← hframes] at hpaused
  exact hpaused.retained fun i g hg => h.retained hf hg

end Performance

/-! ### Announcements -/

namespace Recorder

theorem syncs_act (a : Act) (r : Recorder) : (a.perform r).1.syncs = r.syncs := by
  cases a with
  | emit f =>
    change (r.emit f).1.syncs = r.syncs
    rw [(Adds.emit r f).same]
  | endCycle =>
    simp only [Act.perform, setImplicitPeriod]
    split <;> rfl
  | _ => rfl

theorem syncs_of_composed {asked : String → Prop} {f : Recorder → Recorder} (hf : Composed asked f)
    (r : Recorder) : (f r).syncs = r.syncs :=
  hf.invariant (P := fun r' => r'.syncs = r.syncs) (fun a r' h => (syncs_act a r').trans h) rfl

theorem syncs_follow (r : Recorder) : r.follow.syncs = r.syncs := by
  unfold follow
  split <;> rfl

theorem syncs_sync (event : String) (r : Recorder) :
    (Movement.sync event r).syncs = r.syncs.push ⟨event, r.tick⟩ := by
  change ((r.announce event).emit r.current).1.syncs = _
  rw [(Adds.emit (r.announce event) r.current).same]
  rfl

/-- An announcement that drops no frame holds the widget in place for a frame. -/
theorem frames_sync {event : String} {r : Recorder} (hr : r.Following)
    (h : (Movement.sync event r).capped = false) :
    (Movement.sync event r).frames = r.frames.push (r.label r.current) := by
  have hfollowing : (r.announce event).Following := hr
  have hemit := emit_of_uncapped (filler_of_following hfollowing (f := r.current) rfl) h
  change ((r.announce event).emit r.current).1.frames = _
  rw [hemit]
  rfl

end Recorder

namespace Machine
open Recorder

theorem syncs_advance (settings : EngineSettings) (limit : Nat) {m : Machine}
    (hm : m.recorder.Following) :
    (m.advance settings limit).recorder.syncs = m.recorder.syncs ∨
      ∃ event, m.AtStatement limit (.sync event) ∧
        (m.advance settings limit).recorder.syncs = m.recorder.syncs.push ⟨event, m.recorder.tick⟩ := by
  rcases advance_cases settings limit m with ⟨why, hstop⟩ | ⟨top, below, hstack, hsteps, hframes⟩
  · rw [hstop]
    exact .inl rfl
  · rw [advance_eq_turn hstack hsteps hframes]
    rcases turn_cases settings top below hm with ⟨s, f, hs, hf, hturn⟩ | hquiet
    · rw [hturn]
      change ((f m.recorder).follow.syncs = _) ∨ ∃ event, _ ∧ (f m.recorder).follow.syncs = _
      rw [syncs_follow]
      rcases Statement.composed_of_effect hf with ⟨event, rfl, rfl⟩ | hcomposed
      · exact .inr ⟨event, ⟨top, below, hstack, hs, hsteps, hframes⟩, syncs_sync _ _⟩
      · exact .inl (syncs_of_composed hcomposed _)
    · left
      rw [hquiet]

end Machine

namespace Performance
open Machine Recorder Coordinator

variable {p : Performance} {maxSteps : Option Nat} {m : Machine}

/-- The first announcement of an event that has been recorded was made when the run executed it. -/
def Announced (p : Performance) (maxSteps : Option Nat) (event : String) (r : Recorder) : Prop :=
  ∀ tick, firstTick r.syncs.toList event = some tick →
    ∃ m, p.Executing maxSteps m (.sync event) ∧ firstTick m.recorder.syncs.toList event = none ∧
      m.recorder.tick = tick

theorem announced_advance {event : String}
    (hm : Reaches p.settings (p.limit maxSteps) (.start p.program p.recorder) m)
    (h : p.Announced maxSteps event m.recorder) :
    p.Announced maxSteps event (m.advance p.settings (p.limit maxSteps)).recorder := by
  intro tick htick
  have hfollowing := following_reaches hm (following_start _ _ _ _)
  rcases syncs_advance p.settings (p.limit maxSteps) hfollowing with
    hsame | ⟨other, hat, hpush⟩
  · rw [hsame] at htick
    exact h tick htick
  · rw [hpush, Array.toList_push, firstTick_append] at htick
    cases hfirst : firstTick m.recorder.syncs.toList event with
    | some known =>
      rw [hfirst] at htick
      exact h tick (hfirst.trans htick)
    | none =>
      rw [hfirst, Option.none_or, firstTick_cons] at htick
      split at htick
      · rename_i hname
        subst hname
        exact ⟨m, ⟨hm, hat⟩, hfirst, Option.some.inj htick⟩
      · cases htick

/-- The first announcement of an event on a timeline is where the run executed it first. -/
theorem announced_outcome (p : Performance) (maxSteps : Option Nat) (event : String) :
    p.Announced maxSteps event (p.outcome maxSteps).1.recorder := by
  have hstart : p.Announced maxSteps event p.recorder := by
    intro tick htick
    cases htick
  exact outcome_induction hstart fun _ => announced_advance

/-- At its first announcement an event has the index of the frame that the run holds there. -/
theorem first_announcement {event : String} {tick : Nat}
    (hend : (p.outcome maxSteps).1.recorder.capped = false)
    (htick : firstTick (p.perform maxSteps).timeline.syncs event = some tick) :
    ∃ m, p.Executing maxSteps m (.sync event) ∧ firstTick m.recorder.syncs.toList event = none ∧
      m.recorder.tick = tick ∧
      ∃ f, (p.perform maxSteps).timeline.frames[tick]? = some f ∧ f.pause = false ∧
        f.coords = m.recorder.current.coords := by
  rw [syncs_perform] at htick
  obtain ⟨m, hm, hfirst, rfl⟩ := announced_outcome p maxSteps event tick htick
  have hf : ∀ site, (Statement.sync event).effect? site = some (Movement.sync event) := fun _ => rfl
  have hrecorded : (Movement.sync event m.recorder).frames[m.recorder.tick]? =
      some (m.recorder.label m.recorder.current) := by
    rw [frames_sync hm.following (hm.uncapped hf hend), Recorder.tick, Array.getElem?_push_size]
  exact ⟨m, hm, hfirst, rfl, _, hm.retained hf hrecorded, pause_label _ _, coords_label _ _⟩

end Performance
end Choreography
