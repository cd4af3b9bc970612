import Choreography.Proofs.Additions
import Choreography.Proofs.Executions
import Mathlib

/-! # Cycles of wrapping scrolls

A wrapping scroll looks the same after every multiple of its unit, and it moves by whole steps. Its
cycle ends at the least common multiple of the two. A run goes through the cycle of a statement once,
however often it executes the statement. -/
namespace Choreography
namespace Movement
open Recorder

theorem commonDivisor_eq_gcd (a b : ℕ) : commonDivisor a b = Nat.gcd a b := by
  induction b using Nat.strong_induction_on generalizing a with
  | _ b ih =>
    rw [commonDivisor]
    split
    · rename_i hb
      rw [hb, Nat.gcd_zero_right]
    · rename_i hb
      rw [ih _ (Nat.mod_lt _ (Nat.pos_of_ne_zero hb)), Nat.gcd_comm b, ← Nat.gcd_rec, Nat.gcd_comm]

/-- The number of steps after which a wrapped picture repeats for the first time. -/
theorem isLeast_cycle {step unit : ℕ} (hstep : 0 < step) (hunit : 0 < unit) :
    IsLeast {k | 0 < k ∧ unit ∣ k * step} (unit / commonDivisor step unit) ∧
      unit / commonDivisor step unit ≤ unit ∧
      unit / commonDivisor step unit * step = Nat.lcm step unit := by
  rw [commonDivisor_eq_gcd]
  have hlcm : unit / Nat.gcd step unit * step = Nat.lcm step unit := by
    rw [Nat.lcm, Nat.mul_comm, Nat.mul_div_assoc _ (Nat.gcd_dvd_right step unit)]
  have hpos : 0 < unit / Nat.gcd step unit :=
    Nat.div_pos (Nat.gcd_le_right step hunit) (Nat.gcd_pos_of_pos_left unit hstep)
  refine ⟨⟨⟨hpos, ?_⟩, ?_⟩, Nat.div_le_self _ _, hlcm⟩
  · rw [hlcm]
    exact Nat.dvd_lcm_right step unit
  · rintro k ⟨hk, hdvd⟩
    have hmultiple : Nat.lcm step unit ∣ k * step := Nat.lcm_dvd (Nat.dvd_mul_left step k) hdvd
    rw [← hlcm] at hmultiple
    exact Nat.le_of_dvd hk (Nat.dvd_of_mul_dvd_mul_right hstep hmultiple)

theorem isLeast_cycle_toNat {step unit : ℤ} (hstep : 1 ≤ step) (hunit : 1 ≤ unit) :
    let k := unit.toNat / commonDivisor step.toNat unit.toNat
    IsLeast {k : ℕ | 0 < k ∧ unit ∣ k * step} k ∧ k ≤ unit ∧ k * step = Int.lcm step unit := by
  lift step to ℕ using by omega
  lift unit to ℕ using by omega
  simp only [Int.toNat_natCast]
  obtain ⟨hleast, hle, hlcm⟩ := isLeast_cycle (Int.natCast_pos.mp hstep) (Int.natCast_pos.mp hunit)
  have hsame : {k : ℕ | 0 < k ∧ (unit : ℤ) ∣ k * step} = {k : ℕ | 0 < k ∧ unit ∣ k * step} := by
    ext k
    exact and_congr_right fun _ => by exact_mod_cast Iff.rfl
  rw [hsame]
  exact ⟨hleast, by exact_mod_cast hle, by exact_mod_cast hlcm⟩

/-- Frame by frame, the number of the point is the quotient by the time for which each is held. -/
theorem held_map_range' {interval : ℕ} (hinterval : 0 < interval) (point : ℕ → Frame) (n : ℕ) :
    held interval ((List.range' 1 n).map point) =
      (List.range (n * interval)).map fun j => point (j / interval + 1) := by
  induction n with
  | zero => rw [Nat.zero_mul]; rfl
  | succ n ih =>
    have hlast : (List.range interval).map (fun j => point ((n * interval + j) / interval + 1)) =
        List.replicate interval (point (1 + 1 * n)) := by
      refine List.eq_replicate_iff.mpr ⟨by rw [List.length_map, List.length_range], fun f hf => ?_⟩
      obtain ⟨j, hj, rfl⟩ := List.mem_map.mp hf
      have hquotient : (n * interval + j) / interval = n := by
        rw [Nat.mul_comm, Nat.mul_add_div hinterval, Nat.div_eq_of_lt (List.mem_range.mp hj),
          Nat.add_zero]
      rw [hquotient, Nat.one_mul, Nat.add_comm]
    rw [List.range'_concat, List.map_append, List.map_singleton, held_append, held_singleton, ih,
      ← hlast, Nat.add_one_mul n interval, List.range_add, List.map_append, List.map_map]
    rfl

variable {site : Site} {motion : Motion} {r : Recorder}

/-- The arguments with which a wrapping scroll goes through a cycle. -/
structure Wraps (motion : Motion) (r : Recorder) : Prop where
  step : 1 ≤ (paceIn r.env motion).step
  interval : 1 ≤ (paceIn r.env motion).interval
  unit : 1 ≤ (scrollUnit r (paceIn r.env motion)).2

/-- The number of steps in the cycle of a wrapping scroll. -/
def cycleSteps (motion : Motion) (r : Recorder) : ℕ :=
  (scrollUnit r (paceIn r.env motion)).2.toNat /
    commonDivisor (paceIn r.env motion).step.toNat (scrollUnit r (paceIn r.env motion)).2.toNat

theorem scrollLoop_of_finished (h : site ∈ r.finishedScrolls) : scrollLoop site motion r = r :=
  if_pos (List.contains_iff_mem.mpr h)

theorem scrollLoop_of_wraps (h : Wraps motion r) (hnew : site ∉ r.finishedScrolls) :
    ∃ ticks, scrollLoop site motion r = ((stride (paceIn r.env motion) (cycleSteps motion r)
      (r.noteIntegers (arguments motion))).finishScroll site).setImplicitPeriod ticks := by
  have hinterval : 0 < (r.env.evalInteger motion.interval).toNat := h.interval
  have hunit : ¬ (scrollUnit (r.noteIntegers (arguments motion)) (paceIn r.env motion)).2 ≤ 0 :=
    Int.not_le.mpr h.unit
  rw [scrollLoop, if_neg fun hold => hnew (List.contains_iff_mem.mp hold),
    atPace_of_pos h.step (by omega)]
  unfold wrap
  dsimp only
  rw [if_neg hunit]
  exact ⟨_, rfl⟩

/-- A wrapping scroll with other arguments is not finished. -/
theorem finishedScrolls_of_not_wraps (h : ¬ Wraps motion r) :
    (scrollLoop site motion r).finishedScrolls = r.finishedScrolls := by
  unfold scrollLoop
  split
  · rfl
  · by_cases husable : r.env.evalInteger motion.step ≤ 0 ∨ r.env.evalInteger motion.interval ≤ 0
    · rw [atPace_of_unusable husable]
      rfl
    · have hunit : (scrollUnit (r.noteIntegers (arguments motion)) (paceIn r.env motion)).2 ≤ 0 := by
        by_contra hpos
        refine h ⟨?_, ?_, Int.not_le.mp hpos⟩
        · simp only [paceIn]
          omega
        · simp only [paceIn]
          omega
      rw [atPace_of_pos (by omega) (by omega)]
      unfold wrap
      dsimp only
      rw [if_pos hunit]
      rfl

theorem mem_finishedScrolls_scrollLoop :
    site ∈ (scrollLoop site motion r).finishedScrolls ↔
      site ∈ r.finishedScrolls ∨ Wraps motion r := by
  by_cases hold : site ∈ r.finishedScrolls
  · rw [scrollLoop_of_finished hold]
    exact ⟨.inl, fun _ => hold⟩
  · by_cases h : Wraps motion r
    · obtain ⟨ticks, heq⟩ := scrollLoop_of_wraps h hold
      rw [heq, setImplicitPeriod_same]
      exact ⟨fun _ => .inr h, fun _ => List.mem_cons_self⟩
    · rw [finishedScrolls_of_not_wraps h]
      exact ⟨.inl, fun hor => hor.resolve_right h⟩

/-- What a cycle adds if it drops no frame and stays within thirty-two bits. -/
theorem frames_scrollLoop (h : Wraps motion r) (hnew : site ∉ r.finishedScrolls)
    (hsmoothing : r.smoothing = false) (hplace : r.current.Fits)
    (hend : (beside r.current motion.direction
      (cycleSteps motion r * (paceIn r.env motion).step)).Fits)
    (hkept : (scrollLoop site motion r).capped = false) :
    (scrollLoop site motion r).frames = r.frames ++
      ((List.range (cycleSteps motion r * (paceIn r.env motion).interval)).map fun j =>
        r.label (beside r.current motion.direction
          ((j / (paceIn r.env motion).interval + 1 : ℕ) * (paceIn r.env motion).step))).toArray := by
  obtain ⟨ticks, heq⟩ := scrollLoop_of_wraps h hnew
  have hplaces : ((List.range' 1 (cycleSteps motion r)).map fun i : ℕ =>
      along r.current motion.direction (i * (paceIn r.env motion).step)) =
      (List.range' 1 (cycleSteps motion r)).map fun i : ℕ =>
        beside r.current motion.direction (i * (paceIn r.env motion).step) := by
    refine List.map_congr_left fun i hi => ?_
    rw [List.mem_range'_1] at hi
    have hstep := h.step
    exact along_of_le hplace hend (by positivity)
      (mul_le_mul_of_nonneg_right (by omega) (by omega))
  rw [heq, capped_setImplicitPeriod] at hkept
  rw [heq, frames_setImplicitPeriod]
  change (stride _ _ (r.noteIntegers (arguments motion))).frames = _
  rw [stride_eq_addAll hkept, frames_addAll (r.noteIntegers (arguments motion)) hsmoothing]
  change _ ++ ((held _ ((List.range' 1 (cycleSteps motion r)).map fun i : ℕ =>
    along r.current motion.direction (i * (paceIn r.env motion).step))).map r.label).toArray = _
  rw [hplaces, held_map_range' h.interval, List.map_map]
  rfl

end Movement

namespace Performance
open Machine Recorder Movement

variable {p : Performance} {maxSteps : Option Nat} {m m' : Machine} {ms : List Machine}
  {site : Site} {motion : Motion}

def CyclesAt (site : Site) (m : Machine) : Prop :=
  ∃ motion, m.next? = some (site, .scrollLoop motion) ∧ Wraps motion m.recorder

/-- A scroll is finished once it was executed with arguments that move it. -/
theorem mem_finishedScrolls_iff
    (hpath : Path p.settings (p.limit maxSteps) (.start p.program p.recorder) ms m) :
    site ∈ m.recorder.finishedScrolls ↔ ∃ x ∈ ms, CyclesAt site x := by
  refine hpath.induction (P := fun seen x =>
    site ∈ x.recorder.finishedScrolls ↔ ∃ y ∈ seen, CyclesAt site y) ?_ ?_
  · exact ⟨fun h => absurd h List.not_mem_nil, fun ⟨x, hx, _⟩ => absurd hx List.not_mem_nil⟩
  · intro seen x x' hreaches hadvance ih
    have hfollowing := following_reaches hreaches (following_start _ _ _ _)
    have hseen : (∃ y ∈ seen ++ [x], CyclesAt site y) ↔
        (∃ y ∈ seen, CyclesAt site y) ∨ CyclesAt site x := by
      simp only [List.mem_append, List.mem_singleton, or_and_right, exists_or, exists_eq_left]
    rw [hseen, ← ih]
    by_cases hnext : ∃ motion, x.next? = some (site, .scrollLoop motion)
    · obtain ⟨motion, hnext⟩ := hnext
      have hcycles : CyclesAt site x ↔ Wraps motion x.recorder := by
        refine ⟨fun ⟨other, hother, hwraps⟩ => ?_, fun hwraps => ⟨motion, hnext, hwraps⟩⟩
        cases hnext.symm.trans hother
        exact hwraps
      have hrecorder := recorder_of_next hadvance hnext rfl
      rw [hcycles, ← mem_finishedScrolls_scrollLoop, hrecorder, follow_same]
    · have hcycles : ¬ CyclesAt site x := fun ⟨motion, hmotion, _⟩ => hnext ⟨motion, hmotion⟩
      rw [or_iff_left hcycles]
      exact mem_finishedScrolls_advance hadvance hfollowing fun motion hmotion =>
        hnext ⟨motion, hmotion⟩

/-- One cycle is added, frame by frame: the shortest way in whole steps after which the picture of a
wrapping scroll repeats. -/
def AddsCycle (motion : Motion) (r r' : Recorder) : Prop :=
  let p := paceIn r.env motion
  let unit := (scrollUnit r p).2
  ∃ k : ℕ, IsLeast {k : ℕ | 0 < k ∧ unit ∣ k * p.step} k ∧ k ≤ unit ∧
    k * p.step = Int.lcm p.step unit ∧
    r'.frames = r.frames ++ ((List.range (k * p.interval)).map fun j =>
      r.label (beside r.current p.direction ((j / p.interval + 1 : ℕ) * p.step))).toArray

/-- The first execution of a wrapping scroll that can move adds one cycle, and every later execution
of the statement adds nothing. -/
theorem scrollLoop_cycles_once
    (hpath : Path p.settings (p.limit maxSteps) (.start p.program p.recorder) ms m)
    (hnext : m.next? = some (site, .scrollLoop motion))
    (hadvance : m.advance p.settings (p.limit maxSteps) = .running m') :
    ((∃ x ∈ ms, CyclesAt site x) → m'.recorder.frames = m.recorder.frames) ∧
      ((∀ x ∈ ms, ¬ CyclesAt site x) → Wraps motion m.recorder →
        p.settings.smoothing = false → m'.recorder.capped = false → m.recorder.current.Fits →
        (beside m.recorder.current motion.direction (Int.lcm (paceIn m.recorder.env motion).step
          (scrollUnit m.recorder (paceIn m.recorder.env motion)).2)).Fits →
        AddsCycle motion m.recorder m'.recorder) := by
  have hrecorder := recorder_of_next hadvance hnext rfl
  have hframes : m'.recorder.frames = (scrollLoop site motion m.recorder).frames := by
    rw [hrecorder, frames_follow]
  rw [← mem_finishedScrolls_iff hpath]
  refine ⟨fun hold => ?_, fun hnew hwraps hsmoothing hkept hplace hend => ?_⟩
  · rw [hframes, scrollLoop_of_finished hold]
  · have hunfinished : site ∉ m.recorder.finishedScrolls := by
      rw [mem_finishedScrolls_iff hpath]
      rintro ⟨x, hx, hcycles⟩
      exact hnew x hx hcycles
    obtain ⟨hleast, hle, hlcm⟩ := isLeast_cycle_toNat hwraps.step hwraps.unit
    rw [hrecorder, follow_same] at hkept
    rw [← hlcm] at hend
    refine ⟨_, hleast, hle, hlcm, ?_⟩
    rw [hframes]
    exact frames_scrollLoop hwraps hunfinished
      ((smoothing_reaches hpath.reaches).trans hsmoothing) hplace hend hkept

/-- Scrolls a widget of one pixel with two pixels of blank in steps of two pixels. -/
def ticker : Motion := { Motion.along .right .zero with step := .int 2, gap := .int 2 }

/-- The picture repeats after three steps, and the second pass of the loop adds nothing. -/
theorem scrollLoop_cycles_once_ticker :
    let p := playing [.repeated (.int 2) [.scrollLoop ticker]]
    p.settings.smoothing = false ∧
      (p.after 1).next? = some ([0, 0], .scrollLoop ticker) ∧
      (p.after 1).advance p.settings (p.limit none) = .running (p.after 2) ∧
      AddsCycle ticker (p.after 1).recorder (p.after 2).recorder ∧
      (p.after 2).recorder.frames.map Frame.coords = #[(2, 0), (4, 0), (6, 0)] ∧
      (p.after 3).next? = some ([0, 0], .scrollLoop ticker) ∧
      (p.after 3).advance p.settings (p.limit none) = .running (p.after 4) ∧
      (p.after 4).recorder.frames = (p.after 3).recorder.frames := by
  intro p
  have hfirst : (p.after 1).next? = some ([0, 0], .scrollLoop ticker) := by cbv
  have hsecond : (p.after 3).next? = some ([0, 0], .scrollLoop ticker) := by cbv
  have hwraps : Wraps ticker (p.after 1).recorder :=
    ⟨by decide +kernel, by decide +kernel, by decide +kernel⟩
  have hnew : ∀ x ∈ p.stretch 0 1, ¬ CyclesAt [0, 0] x := by
    have hsites : ∀ x ∈ p.stretch 0 1, x.next?.map Prod.fst ≠ some [0, 0] := by decide +kernel
    rintro x hx ⟨motion, hnext, -⟩
    exact hsites x hx (by rw [hnext, Option.map_some])
  have hold : ∃ x ∈ p.stretch 0 3, CyclesAt [0, 0] x :=
    ⟨p.after 1, List.mem_of_getElem? (i := 1) rfl, ticker, hfirst, hwraps⟩
  have hadvance : (p.after 1).advance p.settings (p.limit none) = .running (p.after 2) :=
    advance_after (by decide +kernel)
  have hadvance' : (p.after 3).advance p.settings (p.limit none) = .running (p.after 4) :=
    advance_after (by decide +kernel)
  obtain ⟨-, hcycle⟩ := scrollLoop_cycles_once (p.path_stretch 0 1) hfirst hadvance
  obtain ⟨hrest, -⟩ := scrollLoop_cycles_once (p.path_stretch 0 3) hsecond hadvance'
  refine ⟨rfl, hfirst, hadvance, ?_, by decide +kernel, hsecond, hadvance', hrest hold⟩
  exact hcycle hnew hwraps rfl (by decide +kernel) ⟨by decide +kernel, by decide +kernel⟩
    ⟨by decide +kernel, by decide +kernel⟩

end Performance
end Choreography
