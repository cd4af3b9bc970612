import Choreography.Proofs.Progress

/-! # The index map of smoothing

A frame of the source keeps its place in the order and comes with the frames of the bridge to it.
So the new indices increase, and between those of two neighbours there is just the bridge. -/
namespace Choreography.Smoothing

variable {source : Array Frame} {i j k : Nat} {f g : Frame}

theorem toList_of_push (source : Array Frame) (f : Frame) :
    (Progress.of (source.push f)).frames.toList =
      (Progress.of source).frames.toList ++ (inserted source.back? f ++ [f]) := by
  simp [frames_of_push]

theorem size_of_push (source : Array Frame) (f : Frame) :
    (Progress.of (source.push f)).frames.size =
      (Progress.of source).frames.size + (inserted source.back? f).length + 1 := by
  have hlength := congrArg List.length (toList_of_push source f)
  simp only [Array.length_toList, List.length_append, List.length_singleton] at hlength
  omega

/-- The frames that are smoothed so far stay where they are. -/
theorem getElem?_of_push (h : j < (Progress.of source).frames.size) (f : Frame) :
    (Progress.of (source.push f)).frames[j]? = (Progress.of source).frames[j]? := by
  rw [← Array.getElem?_toList, toList_of_push, List.getElem?_append_left h, Array.getElem?_toList]

theorem getElem?_of_push_add (source : Array Frame) (f : Frame) (k : Nat) :
    (Progress.of (source.push f)).frames[(Progress.of source).frames.size + k]? =
      (inserted source.back? f ++ [f])[k]? := by
  rw [← Array.getElem?_toList, toList_of_push, List.getElem?_append_right (by simp)]
  simp

theorem remap_of_size_le (h : source.size ≤ i) :
    (Progress.of source).remap i = (Progress.of source).frames.size := by
  have hnone : (Progress.of source).indices[i]? = none := by simpa [size_indices] using h
  simp [Progress.remap, hnone]

theorem remap_lt (h : i < source.size) :
    (Progress.of source).remap i < (Progress.of source).frames.size := by
  induction source using induction_push with
  | hempty => simp at h
  | hpush source f ih =>
    rw [size_of_push]
    rcases Nat.lt_succ_iff_lt_or_eq.mp (Array.size_push f ▸ h) with hi | rfl
    · rw [remap_of_push hi]
      have hlt := ih hi
      omega
    · rw [remap_size]
      omega

theorem remap_le (source : Array Frame) (i : Nat) :
    (Progress.of source).remap i ≤ (Progress.of source).frames.size := by
  rcases Nat.lt_or_ge i source.size with h | h
  · exact Nat.le_of_lt (remap_lt h)
  · exact Nat.le_of_eq (remap_of_size_le h)

theorem remap_zero (source : Array Frame) : (Progress.of source).remap 0 = 0 := by
  induction source using induction_push with
  | hempty => rfl
  | hpush source f ih =>
    rcases Nat.eq_zero_or_pos source.size with h | h
    · have hnone := Array.eq_empty_of_size_eq_zero h
      subst hnone
      rfl
    · rw [remap_of_push h, ih]

/-- Each frame of the source stands at its new index. -/
theorem getElem?_remap (h : i < source.size) :
    (Progress.of source).frames[(Progress.of source).remap i]? = source[i]? := by
  induction source using induction_push with
  | hempty => simp at h
  | hpush source f ih =>
    rcases Nat.lt_succ_iff_lt_or_eq.mp (Array.size_push f ▸ h) with hi | rfl
    · rw [remap_of_push hi, getElem?_of_push (remap_lt hi), ih hi, Array.getElem?_push_lt hi,
        Array.getElem?_eq_getElem hi]
    · rw [remap_size, getElem?_of_push_add]
      simp

/-- The last frame of the source is the last of all. -/
theorem remap_last (h : source.size = i + 1) :
    (Progress.of source).remap i + 1 = (Progress.of source).frames.size := by
  obtain ⟨init, f, rfl⟩ := Array.exists_push_of_size_eq_add_one h
  obtain rfl : init.size = i := by simpa using h
  rw [remap_size, size_of_push]

/-- Two neighbours stand before the last frame, or the second one is the last frame. -/
theorem neighbours_of_push {last : Frame} (hg : (source.push last)[i]? = some g)
    (hf : (source.push last)[i + 1]? = some f) :
    (i + 1 < source.size ∧ source[i]? = some g ∧ source[i + 1]? = some f) ∨
      (source.size = i + 1 ∧ source.back? = some g ∧ last = f) := by
  have hlt := (Array.getElem?_eq_some_iff.mp hf).1
  rw [Array.size_push] at hlt
  rw [Array.getElem?_push, if_neg (by omega)] at hg
  rw [Array.getElem?_push] at hf
  split at hf
  · rename_i hlast
    refine .inr ⟨hlast.symm, ?_, by simpa using hf⟩
    rw [Array.back?_eq_getElem?, ← hlast]
    exact hg
  · exact .inl ⟨by omega, hg, hf⟩

/-- After a frame come the bridge to the next one and that frame. -/
theorem remap_succ (hg : source[i]? = some g) (hf : source[i + 1]? = some f) :
    (Progress.of source).remap (i + 1) =
      (Progress.of source).remap i + (inserted (some g) f).length + 1 := by
  induction source using induction_push with
  | hempty => simp at hg
  | hpush source last ih =>
    rcases neighbours_of_push hg hf with ⟨hlt, hg, hf⟩ | ⟨hsize, hback, rfl⟩
    · rw [remap_of_push hlt, remap_of_push (by omega), ih hg hf]
    · have hlast := remap_last hsize
      rw [remap_of_push (i := i) (by omega), ← hsize, remap_size, hback]
      omega

/-- Two frames are put before the second one, and none before the third one. -/
example : (List.range 4).map (Progress.of #[.plain 0 0, .plain 3 0, .plain 3 1]).remap =
    [0, 3, 4, 5] := by decide

theorem getElem?_between (hg : source[i]? = some g) (hf : source[i + 1]? = some f)
    (hk : k < (inserted (some g) f).length) :
    (Progress.of source).frames[(Progress.of source).remap i + 1 + k]? =
      (inserted (some g) f)[k]? := by
  induction source using induction_push with
  | hempty => simp at hg
  | hpush source last ih =>
    rcases neighbours_of_push hg hf with ⟨hlt, hg, hf⟩ | ⟨hsize, hback, rfl⟩
    · have hnext := remap_succ hg hf
      have hroom := remap_lt hlt
      rw [remap_of_push (by omega), getElem?_of_push (by omega), ih hg hf]
    · rw [remap_of_push (by omega), remap_last hsize, getElem?_of_push_add, hback,
        List.getElem?_append_left hk]

/-! ### Order -/

theorem remap_lt_succ (h : i < source.size) :
    (Progress.of source).remap i < (Progress.of source).remap (i + 1) := by
  rcases Nat.lt_or_ge (i + 1) source.size with hlt | hge
  · rw [remap_succ (Array.getElem?_eq_getElem h) (Array.getElem?_eq_getElem hlt)]
    omega
  · rw [remap_of_size_le hge]
    exact remap_lt h

/-- The order of the frames of the source is kept, also with respect to their end. -/
theorem remap_lt_remap (hij : i < j) (hi : i < source.size) :
    (Progress.of source).remap i < (Progress.of source).remap j := by
  induction j with
  | zero => omega
  | succ j ih =>
    rcases Nat.lt_succ_iff_lt_or_eq.mp hij with hlt | rfl
    · have hfirst := ih hlt
      rcases Nat.lt_or_ge j source.size with hj | hj
      · exact Nat.lt_trans hfirst (remap_lt_succ hj)
      · rw [remap_of_size_le (i := j + 1) (by omega)]
        exact remap_lt hi
    · exact remap_lt_succ hi

theorem remap_le_remap (hij : i ≤ j) :
    (Progress.of source).remap i ≤ (Progress.of source).remap j := by
  rcases Nat.eq_or_lt_of_le hij with rfl | hlt
  · exact Nat.le_refl _
  · rcases Nat.lt_or_ge i source.size with hi | hi
    · exact Nat.le_of_lt (remap_lt_remap hlt hi)
    · have hj : source.size ≤ j := by omega
      exact Nat.le_of_eq ((remap_of_size_le hi).trans (remap_of_size_le hj).symm)

theorem remap_lt_remap_iff (hi : i < source.size) :
    (Progress.of source).remap i < (Progress.of source).remap j ↔ i < j := by
  refine ⟨fun h => Nat.lt_of_not_le fun hge => ?_, fun h => remap_lt_remap h hi⟩
  have hle : (Progress.of source).remap j ≤ (Progress.of source).remap i := remap_le_remap hge
  omega

theorem exists_remap_le_of_lt {n : Nat} (h : j < (Progress.of source).remap n) :
    ∃ i < n, (Progress.of source).remap i ≤ j ∧ j < (Progress.of source).remap (i + 1) := by
  induction n with
  | zero => simp [remap_zero] at h
  | succ n ih =>
    rcases Nat.lt_or_ge j ((Progress.of source).remap n) with hlt | hge
    · obtain ⟨i, hi, hbounds⟩ := ih hlt
      exact ⟨i, Nat.lt_succ_of_lt hi, hbounds⟩
    · exact ⟨n, Nat.lt_succ_self n, hge, h⟩

/-- Every frame stands from the new index of one frame of the source on and before that of the next
one. -/
theorem exists_remap_le (h : j < (Progress.of source).frames.size) :
    ∃ i < source.size, (Progress.of source).remap i ≤ j ∧ j < (Progress.of source).remap (i + 1) :=
  exists_remap_le_of_lt (by rwa [remap_of_size_le (Nat.le_refl _)])

end Choreography.Smoothing
