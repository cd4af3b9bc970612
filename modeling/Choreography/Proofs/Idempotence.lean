import Choreography.Proofs.Continuity
import Choreography.Proofs.Embedding

/-! # Smoothing twice

Frames without a jump have no gap, so that smoothing keeps them and their indices as they are. -/
namespace Choreography.Smoothing

variable {source : Array Frame} {i : Nat} {f g : Frame}

theorem isGap_eq_false_of_steady (h : Steady g f) : isGap g f = false := by
  rw [Bool.eq_false_iff, ne_eq, isGap_iff]
  rintro ⟨hg, hf, hreset, hfar⟩
  obtain ⟨hx, hy⟩ := h hg hf hreset
  simp only [Frame.coords, abs_le] at hx hy
  simp only [Frame.chebyshev] at hfar
  omega

theorem unbroken_of_push (h : Unbroken (source.push f)) :
    Unbroken source ∧ ∀ g, source.back? = some g → Steady g f := by
  rw [unbroken_iff_isChain, Array.toList_push, List.isChain_append] at h
  obtain ⟨hinit, -, hlast⟩ := h
  refine ⟨unbroken_iff_isChain.mpr hinit, fun g hg => ?_⟩
  rw [← Array.getLast?_toList] at hg
  exact hlast g hg f rfl

theorem inserted_of_steady {before : Option Frame} (h : ∀ g, before = some g → Steady g f) :
    inserted before f = [] := by
  cases before with
  | none => rfl
  | some g => simp [inserted, isGap_eq_false_of_steady (h g rfl)]

/-- Without a gap no frame is added. -/
theorem frames_of_unbroken (h : Unbroken source) : (Progress.of source).frames = source := by
  induction source using induction_push with
  | hempty => rfl
  | hpush source f ih =>
    obtain ⟨hinit, hlast⟩ := unbroken_of_push h
    rw [frames_of_push, inserted_of_steady hlast, ih hinit]
    rfl

/-- Without a gap each frame keeps its index. -/
theorem remap_of_unbroken (h : Unbroken source) (i : Nat) :
    (Progress.of source).remap i = min i source.size := by
  induction i with
  | zero => simp [remap_zero]
  | succ i ih =>
    rcases Nat.lt_or_ge (i + 1) source.size with hlt | hge
    · have hg := Array.getElem?_eq_getElem (Nat.lt_of_succ_lt hlt)
      have hf := Array.getElem?_eq_getElem hlt
      rw [remap_succ_eq hg hf, isGap_eq_false_of_steady (h i _ _ hg hf), ih]
      simp only [Bool.false_eq_true, if_false]
      omega
    · rw [remap_of_size_le hge, frames_of_unbroken h]
      omega

theorem remap_remap (source : Array Frame) (i : Nat) :
    (Progress.of (Progress.of source).frames).remap ((Progress.of source).remap i) =
      (Progress.of source).remap i := by
  rw [remap_of_unbroken (unbroken_of source)]
  exact min_eq_left (remap_le source i)

/-- What is smooth stays as it is. -/
theorem smooth_smooth (t : Timeline) : smooth (smooth t) = smooth t := by
  have hframes : (Progress.of (smooth t).frames).frames = (smooth t).frames :=
    frames_of_unbroken (unbroken_of t.frames)
  have hremap : ∀ i, (Progress.of (smooth t).frames).remap ((Progress.of t.frames).remap i) =
      (Progress.of t.frames).remap i := remap_remap t.frames
  have hperiod : (smooth (smooth t)).period = (smooth t).period := by
    ext q
    constructor
    · intro h
      obtain ⟨-, p, hp, rfl⟩ := period_smooth_eq_some.mp h
      obtain ⟨-, p, -, rfl⟩ := period_smooth_eq_some.mp hp
      rwa [hremap]
    · intro h
      obtain ⟨hpos, p, -, rfl⟩ := period_smooth_eq_some.mp h
      exact period_smooth_eq_some.mpr ⟨hpos, _, h, hremap p⟩
  have hsegments : (smooth (smooth t)).segments = (smooth t).segments := by
    simp [smooth, Timeline.build, remap_remap]
  have hsyncs : (smooth (smooth t)).syncs = (smooth t).syncs := by
    simp [smooth, Timeline.build, remap_remap]
  exact Timeline.mk.injEq .. |>.mpr ⟨hframes, hperiod, hremap t.loopStart, hsegments, hsyncs⟩

end Choreography.Smoothing
