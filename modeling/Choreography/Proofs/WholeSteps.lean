import Choreography.Proofs.Interpolation
import Choreography.Proofs.StructuredRun

/-! # Walks of whole steps

A movement along a direction drops what is left of its distance after whole steps. A walk of some
steps and then of some others is one walk of all of them, also where the widget has been brought to
its place in between. -/
namespace Choreography

namespace Recorder

/-- The frames that are added depend only on those that are there, on smoothing and on the name. -/
theorem frames_addAll_congr {r r' : Recorder} (hframes : r.frames = r'.frames)
    (hsmoothing : r.smoothing = r'.smoothing) (hsegment : r.activeSegment = r'.activeSegment)
    (frames : List Frame) : (r.addAll frames).frames = (r'.addAll frames).frames := by
  induction frames generalizing r r' with
  | nil => exact hframes
  | cons f rest ih =>
    have hlabel : r.label f = r'.label f := by simp only [label, hsegment]
    have hadd : (r.add f).frames = (r'.add f).frames := by
      simp only [add, filler, hframes, hsmoothing, hlabel]
    exact ih hadd hsmoothing hsegment

/-- Frames in a row come after those that are there, with or without smoothing. -/
theorem exists_frames_addAll (r : Recorder) (frames : List Frame) :
    ∃ more : Array Frame, (r.addAll frames).frames = r.frames ++ more ∧
      (r.smoothing = false → more = (frames.map r.label).toArray) := by
  cases hsmoothing : r.smoothing with
  | false => exact ⟨_, frames_addAll r hsmoothing frames, fun _ => rfl⟩
  | true =>
    suffices hgrows : ∃ more : Array Frame, (r.addAll frames).frames = r.frames ++ more by
      obtain ⟨more, hmore⟩ := hgrows
      exact ⟨more, hmore, fun hoff => by cases hoff⟩
    clear hsmoothing
    induction frames generalizing r with
    | nil => exact ⟨#[], (Array.append_empty).symm⟩
    | cons f rest ih =>
      obtain ⟨more, hmore⟩ := ih (r.add f)
      refine ⟨(r.filler f ++ [r.label f]).toArray ++ more, hmore.trans ?_⟩
      have hadd : (r.add f).frames = r.frames ++ (r.filler f ++ [r.label f]).toArray := by
        rw [← Smoothing.foldl_push_eq_append, List.foldl_append]
        rfl
      rw [hadd, Array.append_assoc]

theorem addAll_place (r : Recorder) (x y : Int) (frames : List Frame) :
    (r.place x y).addAll frames = (r.addAll frames).place x y := by
  induction frames generalizing r with
  | nil => rfl
  | cons f rest ih => exact ih (r.add f)

theorem exists_place (r : Recorder) : ∃ x y, r.follow = r.place x y := by
  unfold follow
  split
  · rename_i f _
    exact ⟨f.x, f.y, rfl⟩
  · exact ⟨r.env.x, r.env.y, rfl⟩

/-- Where the widget follows at the end, it need not have followed before. -/
theorem follow_addAll_follow (r : Recorder) (frames : List Frame) :
    (r.follow.addAll frames).follow = (r.addAll frames).follow := by
  rcases List.eq_nil_or_concat' frames with rfl | ⟨init, last, rfl⟩
  · exact follow_eq (following_follow r)
  · obtain ⟨x, y, hplace⟩ := r.exists_place
    have hback := back?_addAll_concat r init last
    have hback' : ((r.addAll (init ++ [last])).place x y).frames.back? = some (r.label last) :=
      hback
    rw [hplace, addAll_place]
    simp only [follow, hback, hback']
    rfl

end Recorder

namespace Movement
open Recorder

variable {place : Frame} {direction : Direction} {step : Int} {interval : Nat} {r : Recorder}

theorem beside_zero (x y : Int) (direction : Direction) :
    beside (.plain x y) direction 0 = .plain x y := by
  simp [beside, Frame.plain]

theorem beside_beside (place : Frame) (direction : Direction) (first second : Int) :
    beside (beside place direction first) direction second =
      beside place direction (first + second) := by
  simp only [beside, Frame.plain, Int.mul_add, Int.add_assoc]

def wholeSteps (place : Frame) (direction : Direction) (step : Int) (count : Nat) : List Frame :=
  (List.range' 1 count).map fun i : Nat => beside place direction (i * step)

theorem wholeSteps_succ (place : Frame) (direction : Direction) (step : Int) (count : Nat) :
    wholeSteps place direction step (count + 1) =
      wholeSteps place direction step count ++
        [beside place direction ((count + 1 : Nat) * step)] := by
  rw [wholeSteps, List.range'_1_concat, List.map_append, List.map_singleton, Nat.add_comm 1 count,
    wholeSteps]

theorem wholeSteps_add (place : Frame) (direction : Direction) (step : Int) (first second : Nat) :
    wholeSteps place direction step (first + second) =
      wholeSteps place direction step first ++
        wholeSteps (beside place direction (first * step)) direction step second := by
  have hrange : List.range' 1 (first + second) =
      List.range' 1 first ++ (List.range' 1 second).map (first + ·) := by
    rw [List.map_add_range', Nat.add_comm first 1, List.range'_append_1]
  rw [wholeSteps, hrange, List.map_append, List.map_map]
  congr 1
  refine List.map_congr_left fun i _ => ?_
  rw [beside_beside, Function.comp_apply, Int.natCast_add, Int.add_mul]

theorem length_held (interval : Nat) (frames : List Frame) :
    (held interval frames).length = frames.length * interval := by
  simp [held, List.length_flatMap]

theorem mem_wholeSteps {count : Nat} {f : Frame} (h : f ∈ wholeSteps place direction step count) :
    ∃ x y, f = .plain x y := by
  obtain ⟨i, -, rfl⟩ := List.mem_map.mp h
  exact ⟨_, _, rfl⟩

/-- Outside of all segments the frames of a walk have no names. -/
theorem map_label_held (hsegment : r.activeSegment = none) (place : Frame) (direction : Direction)
    (step : Int) (count interval : Nat) :
    (held interval (wholeSteps place direction step count)).map r.label =
      held interval (wholeSteps place direction step count) := by
  refine (List.map_congr_left fun f hf => ?_).trans (List.map_id _)
  obtain ⟨x, y, rfl⟩ := mem_wholeSteps (mem_of_mem_held hf)
  simp only [label, Frame.plain, hsegment, id]

def walked (direction : Direction) (step : Int) (interval count : Nat) (r : Recorder) : Recorder :=
  (r.addAll (held interval (wholeSteps r.current direction step count))).follow

theorem walked_zero (hr : r.Following) (direction : Direction) (step : Int) (interval : Nat) :
    walked direction step interval 0 r = r := follow_eq hr

theorem current_walked (hr : r.Following) (hinterval : 0 < interval) (direction : Direction)
    (step : Int) (count : Nat) : (walked direction step interval count r).current =
      beside r.current direction (count * step) := by
  have hcoords : (walked direction step interval count r).current.coords =
      (beside r.current direction (count * step)).coords := by
    rw [walked, coords_follow_addAll hr]
    cases count with
    | zero =>
      rw [Int.natCast_zero, Int.zero_mul, current, beside_zero]
      rfl
    | succ count =>
      obtain ⟨init, hheld⟩ := held_concat hinterval (wholeSteps r.current direction step count)
        (beside r.current direction ((count + 1 : Nat) * step))
      rw [wholeSteps_succ, hheld, List.getLast?_concat]
      rfl
  obtain ⟨hx, hy⟩ := Prod.mk.inj hcoords
  exact congrArg₂ Frame.plain hx hy

theorem walked_walked (hr : r.Following) (hinterval : 0 < interval) (direction : Direction)
    (step : Int) (first second : Nat) :
    walked direction step interval second (walked direction step interval first r) =
      walked direction step interval (first + second) r := by
  rw [walked, current_walked hr hinterval, walked, follow_addAll_follow, ← addAll_append,
    ← held_append, ← wholeSteps_add, ← walked]

/-- A walk appends frames, without smoothing just those of its steps. -/
theorem exists_frames_walked {count : Nat} (hsegment : r.activeSegment = none)
    (hinterval : 0 < interval) (hcount : 0 < count) (direction : Direction) (step : Int) :
    ∃ more : Array Frame,
      (walked direction step interval count r).frames = r.frames ++ more ∧
      r.frames ++ more ≠ #[] ∧ (r.smoothing = false → more.size = count * interval ∧
        more = (held interval (wholeSteps r.current direction step count)).toArray) := by
  have hlength : (held interval (wholeSteps r.current direction step count)).length =
      count * interval := by
    rw [length_held, wholeSteps, List.length_map, List.length_range']
  obtain ⟨more, hmore, hplain⟩ :=
    exists_frames_addAll r (held interval (wholeSteps r.current direction step count))
  refine ⟨more, (frames_follow _).trans hmore, ?_, fun hoff => ?_⟩
  · rw [← hmore]
    refine addAll_ne_empty _ (.inr fun hnil => ?_)
    rw [hnil] at hlength
    exact absurd hlength.symm (Nat.mul_pos hcount hinterval).ne'
  · have hlist := hplain hoff
    rw [map_label_held hsegment] at hlist
    exact ⟨by rw [hlist, List.size_toArray, hlength], hlist⟩

/-- Where the timeline starts over does not matter to a walk. -/
theorem frames_walked_markLoopStart (passes : PassCount) (direction : Direction) (step : Int)
    (interval count : Nat) (r : Recorder) :
    (walked direction step interval count (Machine.markLoopStart passes r)).frames =
      (walked direction step interval count r).frames := by
  have hcurrent : (Machine.markLoopStart passes r).current = r.current := by
    rw [current, (Quiet.markLoopStart passes r).env, current]
  have hsmoothing : (Machine.markLoopStart passes r).smoothing = r.smoothing := by
    rw [Quiet.markLoopStart passes r]
  rw [walked, walked, frames_follow, frames_follow, hcurrent]
  exact frames_addAll_congr (Quiet.markLoopStart passes r).frames hsmoothing
    (Machine.activeSegment_markLoopStart passes r) _

/-- How far two places within thirty-two bits are from each other. -/
theorem amount_of_fits {amount : Int} (hplace : place.Fits)
    (hend : (beside place direction amount).Fits) : -2 ^ 63 ≤ amount ∧ amount < 2 ^ 63 := by
  have hrange : signedRange 32 = (-2147483648, 2147483647) := by decide
  rw [Frame.fits_iff, hrange] at hplace hend
  simp only [x_beside, y_beside] at hend
  cases direction <;> simp only [Direction.delta] at hend <;> omega

end Movement

def Motion.paced (direction : Direction) (distance step interval : Int64) : Motion :=
  ⟨direction, .int distance, .int step, .int interval, .zero, .zero⟩

namespace Movement
open Recorder

variable {r : Recorder}

/-- A movement with a positive pace that stays within thirty-two bits and drops no frame. -/
theorem follow_move {direction : Direction} {distance step interval : Int64}
    (hstep : 1 ≤ step.toInt) (hdistance : 1 ≤ distance.toInt) (hinterval : 1 ≤ interval.toInt)
    (hplace : r.current.Fits)
    (hend : (beside r.current direction (distance.toInt / step.toInt * step.toInt)).Fits)
    (hkept : (move (.paced direction distance step interval) r).capped = false) :
    (move (.paced direction distance step interval) r).follow =
      walked direction step.toInt interval.toInt.toNat (distance.toInt / step.toInt).toNat r := by
  have hcount : 0 ≤ distance.toInt / step.toInt := Int.ediv_nonneg (by omega) (by omega)
  have hmove : move (.paced direction distance step interval) r =
      stride (paceIn r.env (.paced direction distance step interval))
        (distance.toInt / step.toInt).toNat r := by
    have hpositive : ¬ (paceIn r.env (.paced direction distance step interval)).distance ≤ 0 :=
      Int.not_le.mpr hdistance
    have hstep' : 0 < r.env.evalInteger (.int step) := hstep
    have hinterval' : 0 < r.env.evalInteger (.int interval) := hinterval
    rw [move, atPace_of_pos hstep' hinterval']
    exact if_neg hpositive
  rw [hmove] at hkept ⊢
  rw [stride_eq_addAll hkept, walked, wholeSteps]
  congr 3
  refine List.map_congr_left fun i hi => ?_
  rw [List.mem_range'_1] at hi
  have hle : (i : Int) ≤ distance.toInt / step.toInt := by omega
  have hpositive : 0 ≤ step.toInt := Int.le_trans Int.one_nonneg hstep
  exact along_of_le hplace hend (Int.mul_nonneg (Int.natCast_nonneg i) hpositive)
    (Int.mul_le_mul_of_nonneg_right hle hpositive)

end Movement
end Choreography
