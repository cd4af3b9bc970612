import Choreography.Proofs.SmoothedRun
import Mathlib

/-! # Smoothed frames

Neighbours in smoothed frames are at most one pixel apart on each axis, except around a pause and at
a reset. The points of a bridge divide both axes in as many parts as the longer one has pixels, and
rounding towards the start moves neither by more than one pixel from part to part. If the cap cuts a
bridge off, the frames that are kept are still neighbours. -/
namespace Choreography

def Near (a b : Int × Int) : Prop := |a.1 - b.1| ≤ 1 ∧ |a.2 - b.2| ≤ 1

/-- The widget does not jump from one frame to the next one, if neither is paused and the second one
is no reset. -/
def Steady (a b : Frame) : Prop :=
  a.pause = false → b.pause = false → b.reset = false → Near a.coords b.coords

def Unbroken (frames : Array Frame) : Prop :=
  ∀ i a b, frames[i]? = some a → frames[i + 1]? = some b → Steady a b

namespace Smoothing

theorem near_of_chebyshev {a b : Frame} (h : a.chebyshev b ≤ 1) : Near a.coords b.coords := by
  simp only [Frame.chebyshev] at h
  simp only [Near, Frame.coords, abs_le]
  omega

theorem steady_of_not_isGap {a b : Frame} (h : isGap a b = false) : Steady a b := by
  intro ha hb hreset
  apply near_of_chebyshev
  simpa [isGap, ha, hb, hreset] using h

theorem tdiv_step_of_nonneg {d bound : Int} {parts : Nat} (hparts : 0 < parts) (hd : 0 ≤ d)
    (hle : d ≤ bound * parts) (k : Nat) :
    |(d * k).tdiv parts - (d * (k + 1 : Nat)).tdiv parts| ≤ bound := by
  have hpos : (0 : Int) < parts := by omega
  have hnow : 0 ≤ d * k := by positivity
  have hnext : d * (k + 1 : Nat) = d * k + d := by push_cast; ring
  rw [hnext, Int.tdiv_eq_ediv_of_nonneg hnow, Int.tdiv_eq_ediv_of_nonneg (by omega)]
  have hlow : d * k / parts ≤ (d * k + d) / parts := Int.ediv_le_ediv hpos (by omega)
  have hhigh : (d * k + d) / parts ≤ (d * k + bound * parts) / parts :=
    Int.ediv_le_ediv hpos (by omega)
  rw [Int.add_mul_ediv_right _ _ (by omega)] at hhigh
  rw [abs_le]
  omega

/-- One part more of a distance of at most so many pixels a part is at most as many pixels more. -/
theorem tdiv_step {d bound : Int} {parts : Nat} (hparts : 0 < parts) (hd : |d| ≤ bound * parts)
    (k : Nat) : |(d * k).tdiv parts - (d * (k + 1 : Nat)).tdiv parts| ≤ bound := by
  rw [abs_le] at hd
  rcases le_or_gt 0 d with hsign | hsign
  · exact tdiv_step_of_nonneg hparts hsign hd.2 k
  · have hneg : -d ≤ bound * parts := by omega
    have hback := tdiv_step_of_nonneg hparts (by omega) hneg k
    rw [Int.neg_mul, Int.neg_mul, Int.neg_tdiv, Int.neg_tdiv] at hback
    rw [abs_le] at hback ⊢
    omega

variable {g f : Frame}

theorem abs_le_chebyshev (g f : Frame) :
    |f.x - g.x| ≤ g.chebyshev f ∧ |f.y - g.y| ≤ g.chebyshev f := by
  simp only [Frame.chebyshev, abs_le]
  omega

theorem near_between (h : 0 < g.chebyshev f) (k : Nat) :
    Near (between g f (g.chebyshev f) k).coords (between g f (g.chebyshev f) (k + 1)).coords := by
  obtain ⟨hx, hy⟩ := abs_le_chebyshev g f
  rw [← one_mul (g.chebyshev f : Int)] at hx hy
  have hstepx := tdiv_step h hx k
  have hstepy := tdiv_step h hy k
  simp only [Near, Frame.coords, between, Frame.plain, add_sub_add_left_eq_sub]
  exact ⟨hstepx, hstepy⟩

theorem coords_between_zero (steps : Nat) : (between g f steps 0).coords = g.coords := by
  simp [between, Frame.coords, Frame.plain]

theorem coords_between_last (h : 0 < g.chebyshev f) :
    (between g f (g.chebyshev f) (g.chebyshev f)).coords = f.coords := by
  have hne : (g.chebyshev f : Int) ≠ 0 := by omega
  simp [between, Frame.coords, Frame.plain, Int.mul_tdiv_cancel _ hne]

/-- From the first frame over the bridge to the second one, each place is near the one before. -/
theorem isChain_bridge (h : 0 < g.chebyshev f) :
    List.IsChain Steady (g :: bridge g f ++ [f]) := by
  have hrange : List.range (g.chebyshev f + 1) =
      0 :: List.range' 1 (g.chebyshev f - 1) ++ [g.chebyshev f] := by
    obtain ⟨n, hn⟩ := Nat.exists_eq_succ_of_ne_zero (Nat.ne_of_gt h)
    rw [List.range_succ, List.range_eq_range', hn, List.range'_succ]
    rfl
  have hplaces : (g :: bridge g f ++ [f]).map Frame.coords =
      (List.range (g.chebyshev f + 1)).map fun k => (between g f (g.chebyshev f) k).coords := by
    rw [hrange]
    simp [bridge, coords_between_zero, coords_between_last h]
  have hnear : List.IsChain Near ((g :: bridge g f ++ [f]).map Frame.coords) := by
    rw [hplaces, List.isChain_map]
    exact (List.isChain_range_succ _ _).mpr fun k _ => near_between h k
  exact ((List.isChain_map _).mp hnear).imp fun a b hab _ _ _ => hab

/-- Both axes are rounded towards the start, whatever their signs. -/
example : (bridge (.plain 0 0) (.plain 3 (-2))).map Frame.coords = [(1, 0), (2, -1)] := by decide

/-- Frames without a jump stay so with a frame more and what goes before it. -/
theorem isChain_inserted {frames : List Frame} (h : frames.IsChain Steady) (f : Frame) :
    (frames ++ (inserted frames.getLast? f ++ [f])).IsChain Steady := by
  cases hlast : frames.getLast? with
  | none =>
    rw [List.getLast?_eq_none_iff.mp hlast]
    exact List.isChain_singleton f
  | some g =>
    obtain ⟨init, rfl⟩ := List.getLast?_eq_some_iff.mp hlast
    have hstep : (g :: (inserted (some g) f ++ [f])).IsChain Steady := by
      cases hgap : isGap g f with
      | false =>
        simp only [inserted, hgap, Bool.false_eq_true, if_false, List.nil_append]
        exact List.isChain_pair.mpr (steady_of_not_isGap hgap)
      | true =>
        have hfar : 0 < g.chebyshev f := by
          simp only [isGap, Bool.and_eq_true, decide_eq_true_eq] at hgap
          omega
        simp only [inserted, hgap, if_true]
        exact isChain_bridge hfar
    rw [List.append_assoc]
    exact List.isChain_split.mpr ⟨h, hstep⟩

theorem unbroken_iff_isChain {frames : Array Frame} :
    Unbroken frames ↔ frames.toList.IsChain Steady := by
  rw [List.isChain_iff_getElem]
  constructor
  · intro h i hi
    have hlt : i + 1 < frames.size := hi
    exact h i _ _ (Array.getElem?_eq_getElem (by omega)) (Array.getElem?_eq_getElem hlt)
  · intro h i a b ha hb
    obtain ⟨hlt, rfl⟩ := Array.getElem?_eq_some_iff.mp ha
    obtain ⟨hlt', rfl⟩ := Array.getElem?_eq_some_iff.mp hb
    exact h i hlt'

theorem unbroken_of (source : Array Frame) : Unbroken (Progress.of source).frames := by
  rw [unbroken_iff_isChain]
  induction source using induction_push with
  | hempty => exact List.isChain_nil
  | hpush source f ih =>
    have hlast : source.back? = (Progress.of source).frames.toList.getLast? := by
      rw [← back?_of, Array.getLast?_toList]
    rw [frames_of_push, foldl_push_eq_append, hlast]
    simpa using isChain_inserted ih f

end Smoothing

namespace Recorder
open Smoothing

structure Flowing (r : Recorder) : Prop where
  smoothing : r.smoothing = true
  unbroken : Unbroken r.frames

/-- Also where the cap cuts off what goes before a frame. -/
theorem Flowing.emit {r : Recorder} (h : r.Flowing) (f : Frame) : (r.emit f).1.Flowing := by
  have hframes := r.toList_emit f
  have hkept := List.take_prefix (r.maxPositions - r.frames.size) (r.filler f ++ [r.label f])
  refine ⟨by rw [(Adds.emit r f).same, h.smoothing], ?_⟩
  have hchain := isChain_inserted (unbroken_iff_isChain.mp h.unbroken) (r.label f)
  rw [filler, h.smoothing, if_pos rfl, ← Array.getLast?_toList] at hkept hframes
  rw [unbroken_iff_isChain, hframes]
  exact hchain.prefix ((List.prefix_append_right_inj _).mpr hkept)

theorem Flowing.of_same {r r' : Recorder} (h : r.Flowing) (hsmoothing : r'.smoothing = r.smoothing)
    (hframes : r'.frames = r.frames) : r'.Flowing := by
  refine ⟨hsmoothing.trans h.smoothing, ?_⟩
  rw [hframes]
  exact h.unbroken

theorem kept_flowing : Kept Flowing :=
  kept_of_emit (fun _ f h => h.emit f) fun _ _ hsame h => h.of_same hsame.smoothing hsame.frames

end Recorder

/-- Smoothing leaves no jump, whether it is done on a timeline or while a run goes on. -/
theorem unbroken_of_smoothing :
    (∀ t : Timeline, Unbroken (Smoothing.smooth t).frames) ∧
      ∀ (p : Performance) (maxSteps : Option Nat),
        Unbroken ((p.withSmoothing true).perform maxSteps).timeline.frames := by
  refine ⟨fun t => Smoothing.unbroken_of t.frames, fun p maxSteps => ?_⟩
  have hstart : ((p.withSmoothing true).recorder).Flowing := by
    refine ⟨rfl, fun i a b ha _ => ?_⟩
    simp [Performance.recorder, Recorder.start] at ha
  have hend : ((p.withSmoothing true).outcome maxSteps).1.recorder.Flowing :=
    Machine.kept_run Recorder.kept_flowing (Recorder.following_start _ _ _ _) hstart
  rw [Performance.frames_perform]
  split
  · intro i a b _ hb
    simp at hb
  · exact hend.unbroken

end Choreography
