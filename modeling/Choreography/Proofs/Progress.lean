import Choreography.Smoothing

/-! # Smoothing one frame at a time

How smoothed frames and the map of indices grow when the source grows by a frame. -/
namespace Choreography.Smoothing

theorem of_push (source : Array Frame) (f : Frame) :
    Progress.of (source.push f) = (Progress.of source).extend f := Array.foldl_push

theorem foldl_push_eq_append (frames : Array Frame) (more : List Frame) :
    more.foldl Array.push frames = frames ++ more.toArray := by
  induction more generalizing frames with
  | nil => simp
  | cons f rest ih => simp [ih]

/-- What holds of no frames and stays when a frame is added holds of all arrays of frames. -/
theorem induction_push {P : Array Frame → Prop} (hempty : P #[])
    (hpush : ∀ source f, P source → P (source.push f)) (source : Array Frame) : P source := by
  generalize hn : source.size = n
  induction n generalizing source with
  | zero =>
    rw [Array.eq_empty_of_size_eq_zero hn]
    exact hempty
  | succ n ih =>
    obtain ⟨init, f, rfl⟩ := Array.exists_push_of_size_eq_add_one hn
    exact hpush init f (ih init (by simpa using hn))

theorem size_indices (source : Array Frame) :
    (Progress.of source).indices.size = source.size := by
  induction source using induction_push with
  | hempty => rfl
  | hpush source f ih => simp [of_push, Progress.extend, ih]

theorem back?_of (source : Array Frame) : (Progress.of source).frames.back? = source.back? := by
  induction source using induction_push with
  | hempty => rfl
  | hpush source f ih => simp [of_push, Progress.extend]

/-- The frames of the next step: those that close the gap, then the frame itself. -/
theorem frames_of_push (source : Array Frame) (f : Frame) :
    (Progress.of (source.push f)).frames =
      ((inserted source.back? f).foldl Array.push (Progress.of source).frames).push f := by
  rw [of_push, Progress.extend, back?_of]

theorem size_le_of (source : Array Frame) : source.size ≤ (Progress.of source).frames.size := by
  induction source using induction_push with
  | hempty => exact Nat.le_refl _
  | hpush source f ih =>
    rw [frames_of_push, foldl_push_eq_append]
    simp only [Array.size_push, Array.size_append]
    omega

/-- A frame that is added leaves the indices of the ones before it alone. -/
theorem remap_of_push {source : Array Frame} {i : Nat} (h : i < source.size) (f : Frame) :
    (Progress.of (source.push f)).remap i = (Progress.of source).remap i := by
  have hsize := size_indices source
  have hlt : i < (Progress.of source).indices.size := by omega
  simp only [of_push, Progress.remap, Progress.extend, Array.getD_eq_getD_getElem?,
    Array.getElem?_push_lt hlt, Array.getElem?_eq_getElem hlt, Option.getD_some]

/-- A frame comes after those that close the gap before it. -/
theorem remap_size (source : Array Frame) (f : Frame) :
    (Progress.of (source.push f)).remap source.size =
      (Progress.of source).frames.size + (inserted source.back? f).length := by
  have hsize := size_indices source
  simp [of_push, Progress.remap, Progress.extend, back?_of, ← hsize]

/-- Nothing is put between a frame and one at its place. -/
theorem inserted_of_samePlace {g f : Frame} (h : g.coords = f.coords) :
    inserted (some g) f = [] := by
  simp only [Frame.coords, Prod.mk.injEq] at h
  have hgap : isGap g f = false := by
    simp [isGap, Frame.chebyshev, h.1, h.2]
  simp [inserted, hgap]

end Choreography.Smoothing
