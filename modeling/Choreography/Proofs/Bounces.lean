import Choreography.Proofs.Additions
import Choreography.Proofs.Findings
import Mathlib

/-! # Bounces

A bounce is the way out to its distance and back. Both ways are made of whole steps from where they
start, so that the way back goes over other places if the distance is no multiple of the step; the
last step of each is cut off, and the widget returns to the pixel where it was. -/
namespace Choreography
namespace Movement
open Recorder

/-- The steps over a distance are as many as the quotient of the two, rounded up. -/
theorem stepCount_eq_ceil {distance step : Int} (hstep : 0 < step) (hdistance : 0 < distance) :
    stepCount distance step = ⌈(distance : ℚ) / step⌉₊ := by
  obtain ⟨n, hcount, hbefore, hafter⟩ := stepCount_spec hstep hdistance
  have hpos : (0 : ℚ) < step := by exact_mod_cast hstep
  rw [hcount, eq_comm, Nat.ceil_eq_iff (Nat.succ_ne_zero n), lt_div_iff₀ hpos, div_le_iff₀ hpos]
  exact ⟨by exact_mod_cast hbefore, by exact_mod_cast hafter⟩

theorem isAt_addAll_concat (r : Recorder) (frames : List Frame) (f place : Frame) :
    isAt (r.addAll (frames ++ [f])) place = true ↔ f.coords = place.coords := by
  rw [isAt, back?_addAll_concat, Option.map_some, Option.getD_some, Frame.samePlace_iff,
    coords_label]

variable {origin boundary : Frame} {p : Pace} {r : Recorder} {n : Nat}

/-! ### The frames of a bounce -/

/-- The way of a bounce in `n` steps, up to the last frame before the arrival. -/
def outAndBack (origin : Frame) (p : Pace) (n : Nat) : List Frame :=
  held p.interval ((List.range' 1 n).map fun k : Nat =>
    beside origin p.direction (min (k * p.step) p.distance)) ++
  (pauseFrames none (beside origin p.direction p.distance) p.pauseAtEnds ++
    [beside origin p.direction p.distance]) ++
  held p.interval ((List.range' 1 (n - 1)).map fun k : Nat =>
    beside origin p.direction (p.distance - k * p.step))

/-- The arrival of a bounce in `n` steps. At the origin of the display a frame one pixel away goes
first, unless the widget is there. -/
def homecoming (origin : Frame) (p : Pace) (n : Nat) : List Frame :=
  (if origin.coords = (0, 0) ∧ p.distance - (n - 1 : Nat) * p.step ≠ 1 then
    [beside origin p.direction 1] else []) ++
  (List.replicate p.interval origin ++ pauseFrames none origin p.pauseAtEnds)

def roundTrip (origin : Frame) (p : Pace) (n : Nat) : List Frame :=
  outAndBack origin p n ++ homecoming origin p n

/-- The last frame before the arrival is where the last whole step of the way back has led. -/
theorem outAndBack_concat (origin : Frame) (hinterval : 0 < p.interval) (n : Nat) :
    ∃ init, outAndBack origin p n =
      init ++ [beside origin p.direction (p.distance - (n - 1 : Nat) * p.step)] := by
  unfold outAndBack
  generalize n - 1 = k
  cases k with
  | zero =>
    rw [Nat.cast_zero, zero_mul, sub_zero, ← List.append_assoc]
    exact ⟨_, List.append_nil _⟩
  | succ k =>
    obtain ⟨init, hinit⟩ := held_concat hinterval ((List.range' 1 k).map fun i : Nat =>
      beside origin p.direction (p.distance - i * p.step))
      (beside origin p.direction (p.distance - (k + 1 : Nat) * p.step))
    have hlast : 1 + 1 * k = k + 1 := by omega
    rw [List.range'_concat, List.map_append, List.map_singleton, hlast, hinit, ← List.append_assoc]
    exact ⟨_, rfl⟩

theorem arrive_eq_addAll (h : (arrive origin p r).capped = false) :
    arrive origin p r = r.addAll
      ((if origin.coords = (0, 0) ∧ !isAt r (along origin p.direction 1) then
        [along origin p.direction 1] else []) ++ List.replicate p.interval origin) := by
  unfold arrive at h ⊢
  dsimp only at h ⊢
  rw [emitHeld_eq_addAll h, addAll_append]
  split
  · rename_i haway
    rw [if_pos haway] at h
    rw [emit_eq_add ((Adds.emitHeld _ origin p.interval).uncapped h)]
    rfl
  · rfl

theorem comeBack_eq_arrive (hstep : 0 < p.step) (hdistance : 0 < p.distance) (hexact : Exact 0 p)
    (h : (comeBack origin boundary p r).capped = false) :
    comeBack origin boundary p r = arrive origin p (r.addAll (held p.interval
      ((List.range' 1 (stepCount p.distance p.step - 1)).map fun k : Nat =>
        along boundary p.direction.opposite (k * p.step)))) := by
  let hold (o : Int) (r : Recorder) : Recorder × Bool :=
    if o = p.distance then (arrive origin p r, true)
    else r.emitHeld (along boundary p.direction.opposite o) p.interval
  let visit (o : Int) (r : Recorder) : Recorder :=
    if o = p.distance then arrive origin p r
    else r.addAll (List.replicate p.interval (along boundary p.direction.opposite o))
  have hadds : ∀ o r, Adds r (hold o r).1 := by
    intro o r
    dsimp only [hold]
    split
    · exact adds_arrive r origin p
    · exact Adds.emitHeld r _ p.interval
  have hvisit : ∀ o r, (hold o r).1.capped = false → hold o r = (visit o r, true) := by
    intro o r hr
    by_cases ho : o = p.distance
    · simp only [hold, visit, if_pos ho]
    · simp only [hold, visit, if_neg ho] at hr ⊢
      exact emitHeld_eq_addAll hr
  have hbound : p.distance ≤ 0 + stepBound := by
    have hshort := hexact.distance
    simp only [stepBound]
    omega
  have hback := goOn_eq_foldl hadds hvisit hstep hexact hdistance.le hbound h
  obtain ⟨n, hcount, hbefore, -, heq⟩ := offsets_eq hstep hdistance
  rw [sub_zero] at hcount
  -- Only the last offset is the distance.
  have hway : ∀ (r : Recorder), ∀ k ∈ List.range' 1 n, visit (0 + k * p.step) r =
      r.addAll (List.replicate p.interval (along boundary p.direction.opposite (k * p.step))) := by
    intro r k hk
    have hpart : (k : Int) * p.step ≤ n * p.step :=
      mul_le_mul_of_nonneg_right (by rw [List.mem_range'_1] at hk; omega) hstep.le
    rw [zero_add]
    exact if_neg (by omega)
  refine (congrArg Prod.fst hback).trans ?_
  rw [heq, List.foldl_append, List.foldl_map, List.foldl_ext _ _ _ hway, foldl_addAll, hcount,
    Nat.add_sub_cancel, held, List.flatMap_map]
  exact if_pos rfl

/-- A bounce from a place covers some pixels in steps of some, each for some ticks, and neither end of
its way is beyond thirty-two bits. -/
structure InRange (origin : Frame) (p : Pace) : Prop where
  distance : 0 < p.distance
  step : 0 < p.step
  interval : 0 < p.interval
  origin_fits : origin.Fits
  boundary_fits : (beside origin p.direction p.distance).Fits

namespace InRange

variable (h : InRange origin p)
include h

theorem along_eq {o : Int} (hpos : 0 ≤ o) (hle : o ≤ p.distance) :
    along origin p.direction o = beside origin p.direction o :=
  along_of_le h.origin_fits h.boundary_fits hpos hle

/-- The ways of a bounce do not wrap around. -/
theorem exact (hword : p.step < 2 ^ 63) : Exact 0 p := by
  obtain ⟨hox, hoy⟩ := (Frame.fits_iff _).mp h.origin_fits
  obtain ⟨hbx, hby⟩ := (Frame.fits_iff _).mp h.boundary_fits
  simp only [x_beside, y_beside, signedRange] at hox hoy hbx hby
  refine ⟨le_rfl, fun _ => by omega, ?_⟩
  generalize p.direction = direction at hbx hby
  cases direction <;> simp only [Direction.delta] at hbx hby <;> omega

/-- The places of the way back are on the way out. -/
theorem along_back_eq {k : Nat} (hk : k < stepCount p.distance p.step) :
    along (beside origin p.direction p.distance) p.direction.opposite (k * p.step) =
      beside origin p.direction (p.distance - k * p.step) := by
  obtain ⟨n, hcount, hbefore, -⟩ := stepCount_spec h.step h.distance
  have hpos : 0 ≤ (k : Int) * p.step := mul_nonneg (Int.natCast_nonneg k) h.step.le
  have hle : (k : Int) * p.step ≤ n * p.step := mul_le_mul_of_nonneg_right (by omega) h.step.le
  have hfits : (beside origin p.direction (p.distance - k * p.step)).Fits :=
    fits_beside h.origin_fits h.boundary_fits (by omega) (by omega)
  rw [← beside_opposite] at hfits ⊢
  exact along_of_fits hfits

/-- The way out, the pause there, and the frame from which the way back starts. -/
theorem walk_out_eq_addAll (hword : p.step < 2 ^ 63)
    (hkept : (((walk r origin p 0).1.emitPause (beside origin p.direction p.distance)
      p.pauseAtEnds).emit (beside origin p.direction p.distance)).1.capped = false) :
    (((walk r origin p 0).1.emitPause (beside origin p.direction p.distance) p.pauseAtEnds).emit
      (beside origin p.direction p.distance)).1 =
      r.addAll (held p.interval ((List.range' 1 (stepCount p.distance p.step)).map fun k : Nat =>
        beside origin p.direction (min (k * p.step) p.distance)) ++
        (pauseFrames none (beside origin p.direction p.distance) p.pauseAtEnds ++
          [beside origin p.direction p.distance])) := by
  have hpaused := (Adds.emit _ _).uncapped hkept
  have hwalked := (Adds.emitPause _ _ p.pauseAtEnds).uncapped hpaused
  have hplaces : (offsets 0 p).map (along origin p.direction) =
      (List.range' 1 (stepCount p.distance p.step)).map fun k : Nat =>
        beside origin p.direction (min (k * p.step) p.distance) := by
    rw [offsets, List.map_map, sub_zero]
    refine List.map_congr_left fun k _ => ?_
    have hpos : 0 ≤ (k : Int) * p.step := mul_nonneg (Int.natCast_nonneg k) h.step.le
    rw [Function.comp_apply, zero_add]
    exact h.along_eq (le_min hpos h.distance.le) (min_le_right _ _)
  rw [emit_eq_add hkept, emitPause_eq_addAll hpaused, walk_eq_addAll h.step
    (h.exact hword) h.distance hwalked, hplaces, addAll_append, addAll_append]
  rfl

theorem comeBack_eq_arrive (hword : p.step < 2 ^ 63)
    (hkept : (comeBack origin (beside origin p.direction p.distance) p r).capped = false) :
    comeBack origin (beside origin p.direction p.distance) p r = arrive origin p (r.addAll
      (held p.interval ((List.range' 1 (stepCount p.distance p.step - 1)).map fun k : Nat =>
        beside origin p.direction (p.distance - k * p.step)))) := by
  have hplaces : ((List.range' 1 (stepCount p.distance p.step - 1)).map fun k : Nat =>
      along (beside origin p.direction p.distance) p.direction.opposite (k * p.step)) =
      (List.range' 1 (stepCount p.distance p.step - 1)).map fun k : Nat =>
        beside origin p.direction (p.distance - k * p.step) := by
    refine List.map_congr_left fun k hk => ?_
    rw [List.mem_range'_1] at hk
    exact h.along_back_eq (by omega)
  rw [Movement.comeBack_eq_arrive h.step h.distance (h.exact hword) hkept, hplaces]

/-- At the arrival the widget is where the last step of the way back has left it. -/
theorem isAt_outAndBack (r : Recorder) (n : Nat) :
    isAt (r.addAll (outAndBack origin p n)) (along origin p.direction 1) = true ↔
      p.distance - (n - 1 : Nat) * p.step = 1 := by
  obtain ⟨init, hinit⟩ := outAndBack_concat origin h.interval n
  have hdistance := h.distance
  rw [hinit, isAt_addAll_concat, h.along_eq (by omega) (by omega), coords_beside_inj]

theorem arrive_eq_addAll {n : Nat}
    (hkept : (arrive origin p (r.addAll (outAndBack origin p n))).capped = false) :
    arrive origin p (r.addAll (outAndBack origin p n)) = r.addAll (outAndBack origin p n ++
      ((if origin.coords = (0, 0) ∧ p.distance - (n - 1 : Nat) * p.step ≠ 1 then
        [beside origin p.direction 1] else []) ++ List.replicate p.interval origin)) := by
  have hone : along origin p.direction 1 = beside origin p.direction 1 :=
    h.along_eq (by omega) h.distance
  have haway : (origin.coords = (0, 0) ∧
      !isAt (r.addAll (outAndBack origin p n)) (along origin p.direction 1)) ↔
      origin.coords = (0, 0) ∧ p.distance - (n - 1 : Nat) * p.step ≠ 1 := by
    rw [Bool.not_eq_true', ← Bool.not_eq_true, h.isAt_outAndBack]
  rw [hone] at haway
  rw [Movement.arrive_eq_addAll hkept, ← addAll_append, hone]
  simp only [haway]

end InRange

/-- What a bounce adds if it drops no frame. -/
theorem rebound_eq_addAll (h : InRange r.current p) (hword : p.step < 2 ^ 63)
    (hkept : (rebound p r).capped = false) :
    rebound p r = r.addAll (roundTrip r.current p (stepCount p.distance p.step)) := by
  unfold rebound at hkept ⊢
  dsimp only at hkept ⊢
  rw [h.along_eq h.distance.le le_rfl] at hkept ⊢
  -- No part before the end of the bounce has dropped a frame either.
  have hback := (Adds.emitPause _ r.current p.pauseAtEnds).uncapped hkept
  have hturned := (adds_comeBack _ r.current _ p).uncapped hback
  have harrived := hback
  rw [h.comeBack_eq_arrive hword hback, h.walk_out_eq_addAll hword hturned, ← addAll_append] at harrived
  rw [emitPause_eq_addAll hkept, h.comeBack_eq_arrive hword hback, h.walk_out_eq_addAll hword hturned,
    ← addAll_append]
  change (arrive r.current p (r.addAll (outAndBack r.current p _))).addAll _ = _
  rw [h.arrive_eq_addAll harrived, ← addAll_append, List.append_assoc, List.append_assoc]
  rfl

/-- Every frame of a bounce is on the way from its origin to its boundary. -/
theorem on_way_of_mem (h : InRange origin p) {f : Frame}
    (hf : f ∈ roundTrip origin p (stepCount p.distance p.step)) :
    ∃ o, 0 ≤ o ∧ o ≤ p.distance ∧ f.coords = (beside origin p.direction o).coords := by
  obtain ⟨n, hcount, hbefore, -⟩ := stepCount_spec h.step h.distance
  have hdistance := h.distance
  have hhome : origin.coords = (beside origin p.direction 0).coords := by
    simp [Frame.coords]
  simp only [roundTrip, outAndBack, homecoming, List.mem_append] at hf
  rcases hf with ((hf | hf | hf) | hf) | hf | hf | hf
  · obtain ⟨k, hk, rfl⟩ := List.mem_map.mp (mem_of_mem_held hf)
    exact ⟨_, le_min (mul_nonneg (Int.natCast_nonneg k) h.step.le) hdistance.le, min_le_right _ _,
      rfl⟩
  · exact ⟨p.distance, hdistance.le, le_rfl, coords_of_mem_pauseFrames hf⟩
  · exact ⟨p.distance, hdistance.le, le_rfl, by rw [List.mem_singleton.mp hf]⟩
  · obtain ⟨k, hk, rfl⟩ := List.mem_map.mp (mem_of_mem_held hf)
    rw [hcount, List.mem_range'_1] at hk
    have hpos : 0 ≤ (k : Int) * p.step := mul_nonneg (Int.natCast_nonneg k) h.step.le
    have hle : (k : Int) * p.step ≤ n * p.step := mul_le_mul_of_nonneg_right (by omega) h.step.le
    exact ⟨_, by omega, by omega, rfl⟩
  · split at hf
    · exact ⟨1, by omega, by omega, by rw [List.mem_singleton.mp hf]⟩
    · cases hf
  · exact ⟨0, le_rfl, hdistance.le, by rw [List.eq_of_mem_replicate hf, hhome]⟩
  · exact ⟨0, le_rfl, hdistance.le, (coords_of_mem_pauseFrames hf).trans hhome⟩

theorem back?_roundTrip (h : InRange origin p) (r : Recorder) (n : Nat) :
    ((r.addAll (roundTrip origin p n)).frames.back?).map Frame.coords = some origin.coords := by
  have hne : List.replicate p.interval origin ++ pauseFrames none origin p.pauseAtEnds ≠ [] := by
    have hinterval := h.interval
    simp only [ne_eq, List.append_eq_nil_iff, List.replicate_eq_nil_iff]
    omega
  obtain ⟨init, last, hlast⟩ := (List.eq_nil_or_concat' _).resolve_left hne
  have hmem : last ∈ List.replicate p.interval origin ++ pauseFrames none origin p.pauseAtEnds := by
    rw [hlast]
    exact List.mem_append_right _ (List.mem_singleton_self last)
  have hcoords : last.coords = origin.coords := by
    rcases List.mem_append.mp hmem with hmem | hmem
    · rw [List.eq_of_mem_replicate hmem]
    · exact coords_of_mem_pauseFrames hmem
  rw [roundTrip, homecoming, hlast, ← List.append_assoc, ← List.append_assoc, back?_addAll_concat,
    Option.map_some, coords_label, hcoords]

/-- At the origin of the display the widget arrives from a place one pixel away. -/
theorem exists_before_arrival (h : InRange origin p) (horigin : origin.coords = (0, 0)) (n : Nat) :
    ∃ way, roundTrip origin p n = way ++ (beside origin p.direction 1 ::
      (List.replicate p.interval origin ++ pauseFrames none origin p.pauseAtEnds)) := by
  by_cases hnear : p.distance - (n - 1 : Nat) * p.step = 1
  · obtain ⟨way, hway⟩ := outAndBack_concat origin h.interval n
    rw [hnear] at hway
    refine ⟨way, ?_⟩
    rw [roundTrip, homecoming, if_neg (fun haway => haway.2 hnear), hway, List.nil_append,
      List.append_assoc, List.singleton_append]
  · refine ⟨outAndBack origin p n, ?_⟩
    rw [roundTrip, homecoming, if_pos ⟨horigin, hnear⟩, List.singleton_append]

/-- A bounce adds the frames of its round trip and nothing else: none of them is beyond the boundary,
the last one is at the origin, and at the origin of the display the widget arrives from a place one
pixel away. -/
theorem scrollBounce_returns {m : Motion} (hsmoothing : r.smoothing = false)
    (h : InRange r.current (paceIn r.env m)) (hkept : (scrollBounce m r).capped = false) :
    let p := paceIn r.env m
    let trip := roundTrip r.current p ⌈(p.distance : ℚ) / p.step⌉₊
    (scrollBounce m r).frames = r.frames ++ (trip.map r.label).toArray ∧
      (∀ f ∈ trip, ∃ o, 0 ≤ o ∧ o ≤ p.distance ∧
        f.coords = (beside r.current p.direction o).coords) ∧
      (scrollBounce m r).frames.back?.map Frame.coords = some r.current.coords ∧
      (r.current.coords = (0, 0) → ∃ way, trip = way ++ (beside r.current p.direction 1 ::
        (List.replicate p.interval r.current ++ pauseFrames none r.current p.pauseAtEnds))) := by
  intro p trip
  have hbounce : scrollBounce m r =
      (rebound p (r.noteIntegers (arguments m))).setImplicitPeriod
        (rebound p (r.noteIntegers (arguments m))).frames.size := by
    rw [scrollBounce, atPace_of_moves ⟨h.step, h.interval, h.distance⟩, bounce_eq]
  rw [hbounce, capped_setImplicitPeriod] at hkept
  have htrip : trip = roundTrip r.current p (stepCount p.distance p.step) := by
    rw [stepCount_eq_ceil h.step h.distance]
  have hframes : (scrollBounce m r).frames = (r.addAll trip).frames := by
    rw [hbounce, frames_setImplicitPeriod, rebound_eq_addAll (r := r.noteIntegers _) h
      (step_paceIn_lt r.env m) hkept,
      htrip, noteIntegers, addAll_note]
    rfl
  refine ⟨?_, fun f hf => ?_, ?_, fun horigin => exists_before_arrival h horigin _⟩
  · rw [hframes, frames_addAll r hsmoothing]
  · rw [htrip] at hf
    exact on_way_of_mem h hf
  · rw [hframes]
    exact back?_roundTrip h r _

def sway : Motion := { Motion.along .right (.int 2) with pauseAtEnds := .one }

theorem scrollBounce_returns_sway :
    let r := (Performance.playing []).recorder
    r.smoothing = false ∧ InRange r.current (paceIn r.env sway) ∧
      (scrollBounce sway r).capped = false ∧
      (scrollBounce sway r).frames.back?.map Frame.coords = some (0, 0) := by
  intro r
  have hrange : InRange r.current (paceIn r.env sway) :=
    ⟨by decide, by decide, by decide, ⟨by decide, by decide⟩, ⟨by decide, by decide⟩⟩
  have hkept : (scrollBounce sway r).capped = false := by cbv
  exact ⟨rfl, hrange, hkept, (scrollBounce_returns rfl hrange hkept).2.2.1⟩

end Movement
end Choreography
