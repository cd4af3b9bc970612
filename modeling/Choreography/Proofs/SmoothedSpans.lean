import Choreography.Proofs.Embedding
import Choreography.Proofs.Findings
import Choreography.Proofs.Spans

/-! # Spans over smoothed frames

The ends of a span follow the frames at which it starts and ends, so what covers a frame covers the
bridge from it as well. But the frames of a bridge are named as the frame to which it leads. The two
agree as long as no bridge leads from one name to another one. -/
namespace Choreography

namespace Smoothing

def Progress.remapSpan (p : Progress) (s : Span) : Span :=
  { s with start := p.remap s.start, finish := p.remap s.finish }

variable {t : Timeline} {source : Array Frame} {i j : Nat} {s u : Span} {f g c : Frame}

/-- A span covers a frame together with the bridge to the next one. -/
theorem covers_remapSpan (hi : i < source.size) (hlow : (Progress.of source).remap i ≤ j)
    (hhigh : j < (Progress.of source).remap (i + 1)) :
    ((Progress.of source).remapSpan s).covers j = s.covers i := by
  have hstart : (Progress.of source).remap s.start ≤ j ↔ s.start ≤ i := by
    constructor
    · intro h
      refine Nat.le_of_not_lt fun hlt => ?_
      have hle : (Progress.of source).remap (i + 1) ≤ (Progress.of source).remap s.start :=
        remap_le_remap hlt
      omega
    · intro h
      exact Nat.le_trans (remap_le_remap h) hlow
  have hfinish : j < (Progress.of source).remap s.finish ↔ i < s.finish := by
    constructor
    · intro h
      exact (remap_lt_remap_iff hi).mp (Nat.lt_of_le_of_lt hlow h)
    · intro h
      exact Nat.lt_of_lt_of_le hhigh (remap_le_remap h)
  simp only [Span.covers, Progress.remapSpan, hstart, hfinish]

theorem nameAt_remapSpan (spans : List Span) (hi : i < source.size)
    (hlow : (Progress.of source).remap i ≤ j) (hhigh : j < (Progress.of source).remap (i + 1)) :
    nameAt (spans.map (Progress.of source).remapSpan) j = nameAt spans i := by
  have hcovers : (Span.covers · j) ∘ (Progress.of source).remapSpan = (Span.covers · i) :=
    funext fun s => covers_remapSpan hi hlow hhigh
  rw [nameAt, List.find?_map, Option.map_map, nameAt, hcovers]
  rfl

theorem nestedOrApart_remapSpan (source : Array Frame) (h : s.NestedOrApart u) :
    ((Progress.of source).remapSpan s).NestedOrApart ((Progress.of source).remapSpan u) := by
  rcases h with ⟨hstart, hfinish⟩ | ⟨hstart, hfinish⟩ | hbefore | hafter
  · exact .inl ⟨remap_le_remap hstart, remap_le_remap hfinish⟩
  · exact .inr (.inl ⟨remap_le_remap hstart, remap_le_remap hfinish⟩)
  · exact .inr (.inr (.inl (remap_le_remap hbefore)))
  · exact .inr (.inr (.inr (remap_le_remap hafter)))

theorem segment_of_bridges (h : c.Bridges g f) : c.segment = f.segment := by
  rw [h.bare]

theorem isGap_of_between (hg : source[i]? = some g) (hf : source[i + 1]? = some f)
    (hlow : (Progress.of source).remap i < j) (hhigh : j < (Progress.of source).remap (i + 1)) :
    isGap g f = true := by
  rw [remap_succ_eq hg hf] at hhigh
  split at hhigh
  · assumption
  · omega

/-- The frames of a bridge are named as the one after it, and covered as the one before it. -/
theorem named_smooth_iff (h : t.Labelled) :
    (∀ j c, (smooth t).frames[j]? = some c → c.segment = nameAt (smooth t).segments j) ↔
      ∀ i before after, t.frames[i]? = some before → t.frames[i + 1]? = some after →
        isGap before after = true → before.segment = after.segment := by
  constructor
  · -- the first frame of the bridge has the name of the later frame and the cover of the earlier
    intro hnamed i before after hbefore hafter hgap
    have hi := (Array.getElem?_eq_some_iff.mp hbefore).1
    have hnext := remap_succ_eq hbefore hafter
    have hfar := (isGap_iff.mp hgap).2.2.2
    rw [hgap, if_pos rfl] at hnext
    obtain ⟨c, hc, hbridges⟩ := exists_bridges (j := (Progress.of t.frames).remap i + 1) hbefore
      hafter (by omega) (by omega)
    calc before.segment = nameAt t.segments i := h.names i before hbefore
      _ = nameAt (smooth t).segments ((Progress.of t.frames).remap i + 1) :=
        (nameAt_remapSpan t.segments hi (by omega) (by omega)).symm
      _ = c.segment := (hnamed _ c hc).symm
      _ = after.segment := segment_of_bridges hbridges
  · intro hsame j c hc
    obtain ⟨i, hi, rfl | ⟨hi', hlow, hhigh⟩⟩ :=
      covered_remap (Array.getElem?_eq_some_iff.mp hc).1
    · have hc' : t.frames[i]? = some c := (getElem?_remap hi).symm.trans hc
      rw [h.names i c hc']
      exact (nameAt_remapSpan t.segments hi (Nat.le_refl _) (remap_lt_succ hi)).symm
    · have hbefore := Array.getElem?_eq_getElem hi
      have hafter := Array.getElem?_eq_getElem hi'
      obtain ⟨c', hc', hbridges⟩ := exists_bridges hbefore hafter hlow hhigh
      obtain rfl : c' = c := Option.some.inj (hc'.symm.trans hc)
      calc c'.segment = t.frames[i + 1].segment := segment_of_bridges hbridges
        _ = t.frames[i].segment :=
          (hsame i _ _ hbefore hafter (isGap_of_between hbefore hafter hlow hhigh)).symm
        _ = nameAt t.segments i := h.names i _ hbefore
        _ = nameAt (smooth t).segments j :=
          (nameAt_remapSpan t.segments hi (Nat.le_of_lt hlow) hhigh).symm

/-- Smoothing keeps the spans nested and the names of the frames that there were in agreement with
them. All names agree exactly if no gap is closed between frames of different names. -/
theorem labelled_smooth_iff (h : t.Labelled) :
    (smooth t).segments.Pairwise Span.NestedOrApart ∧
    (∀ i f, t.frames[i]? = some f →
      f.segment = nameAt (smooth t).segments ((Progress.of t.frames).remap i)) ∧
    ((smooth t).Labelled ↔
      ∀ i before after, t.frames[i]? = some before → t.frames[i + 1]? = some after →
        isGap before after = true → before.segment = after.segment) := by
  have hnested : (smooth t).segments.Pairwise Span.NestedOrApart :=
    List.pairwise_map.mpr (h.nested.imp (nestedOrApart_remapSpan t.frames))
  refine ⟨hnested, fun i f hf => ?_, ?_⟩
  · have hi := (Array.getElem?_eq_some_iff.mp hf).1
    rw [h.names i f hf]
    exact (nameAt_remapSpan t.segments hi (Nat.le_refl _) (remap_lt_succ hi)).symm
  · rw [← named_smooth_iff h]
    exact ⟨Timeline.Labelled.names, fun hnamed => ⟨hnamed, hnested⟩⟩

def striding : Timeline :=
  .build #[{ Frame.plain 1 0 with segment := some "a" },
    { Frame.plain 4 0 with segment := some "a" }, .plain 4 1] none 0 [⟨"a", 0, 2⟩] []

theorem labelled_smooth_iff_striding : striding.Labelled ∧ (smooth striding).Labelled := by
  have hlabelled : striding.Labelled := by decide
  obtain ⟨-, -, hiff⟩ := labelled_smooth_iff hlabelled
  refine ⟨hlabelled, hiff.mpr fun i before after hbefore hafter hgap => ?_⟩
  match i with
  | 0 =>
    cases hbefore
    cases hafter
    rfl
  | 1 =>
    cases hbefore
    cases hafter
    exact absurd hgap (by decide)
  | i + 2 => cases hafter

end Smoothing

namespace Performance

/-- A jump into a segment and one out of it. The span of the segment starts after the bridge to it,
and it still covers the bridge that leads out of it. -/
theorem unlabelled_of_leap :
    let stride : Motion := { Motion.along .right (.int 3) with step := .int 3 }
    let leap := playing [.move (.along .right .one), .segment "a" [.move stride], .move stride]
    (leap.perform none).timeline.Labelled ∧
      ¬ (Smoothing.smooth (leap.perform none).timeline).Labelled := by
  intro stride leap
  have hplayed : (leap.perform none).timeline =
      .build #[.plain 1 0, { Frame.plain 4 0 with segment := some "a" }, .plain 7 0] none 0
        [⟨"a", 1, 2⟩] [] := by cbv
  rw [hplayed]
  decide

end Performance
end Choreography
