import Choreography.Proofs.Embedding
import Choreography.Proofs.Executions

/-! # Pauses on a timeline

Recorded frames are frames outside of pauses and whole pauses, one after the other. Who reads them
from the first one on meets the start and the end of each pause in turn, although a start is not
written down but follows from the frame before. -/
namespace Choreography

structure Pause where
  first : Nat
  last : Nat
deriving DecidableEq

inductive Edge where
  | start (i : Nat)
  | finish (i : Nat)
deriving DecidableEq

namespace Pause

def length (p : Pause) : Nat := p.last + 1 - p.first

def edges (p : Pause) : List Edge := [.start p.first, .finish p.last]

end Pause

namespace Timeline

def edgesAt (t : Timeline) (i : Nat) : List Edge :=
  (if t.startsPause i then [.start i] else []) ++ if t.endsPause i then [.finish i] else []

/-- The frames before an index, read from the first one on, show some pauses: their starts and ends
alternate, the paused frames are those between, and all frames of one pause are at one place. -/
structure Reads (t : Timeline) (upto : Nat) (pauses : List Pause) : Prop where
  edges : (List.range upto).flatMap t.edgesAt = pauses.flatMap Pause.edges
  ordered : pauses.Pairwise fun p q => p.last < q.first
  within : ∀ p ∈ pauses, p.first ≤ p.last ∧ p.last < upto
  paused : ∀ i f, i < upto → t.frames[i]? = some f →
    (f.pause = true ↔ ∃ p ∈ pauses, p.first ≤ i ∧ i ≤ p.last)
  still : ∀ p ∈ pauses, ∃ place, ∀ i, p.first ≤ i → i ≤ p.last →
    t.frames[i]?.map Frame.coords = some place
  ended : ∀ i f, i < upto → t.frames[i]? = some f → f.pauseEnd = true → f.pause = true

end Timeline

/-! ### Bracketed frames -/

structure Frame.InPause (place : Int × Int) (k i : Nat) (f : Frame) : Prop where
  pause : f.pause = true
  coords : f.coords = place
  ends : f.pauseEnd = true ↔ i = k

/-- The frames of a pause. -/
structure Rest (place : Int × Int) (k : Nat) (frames : Array Frame) : Prop where
  size : frames.size = k + 1
  frame : ∀ i ≤ k, ∃ f, frames[i]? = some f ∧ f.InPause place k i

/-- Frames outside of pauses and whole pauses follow each other. -/
inductive Bracketed : Array Frame → List Pause → Prop
  | nil : Bracketed #[] []
  | moving {frames : Array Frame} {pauses : List Pause} {f : Frame} (h : Bracketed frames pauses)
      (hf : f.Unpaused) : Bracketed (frames.push f) pauses
  | rest {frames still : Array Frame} {pauses : List Pause} {place : Int × Int} {k : Nat}
      (h : Bracketed frames pauses) (hstill : Rest place k still) :
      Bracketed (frames ++ still) (pauses ++ [⟨frames.size, frames.size + k⟩])

namespace Bracketed

variable {frames : Array Frame} {pauses : List Pause}

/-- No pause is open at the end. -/
theorem closed (h : Bracketed frames pauses) {f : Frame} (hf : frames.back? = some f)
    (hpause : f.pause = true) : f.pauseEnd = true := by
  cases h with
  | nil => cases hf
  | moving h hunpaused =>
    rw [Array.back?_push] at hf
    cases hf
    rw [hunpaused.pause] at hpause
    cases hpause
  | @rest frames still pauses place k h hstill =>
    obtain ⟨last, hlast, hin⟩ := hstill.frame k (Nat.le_refl k)
    have hback : still.back? = some last := by
      rw [Array.back?_eq_getElem?, hstill.size, Nat.add_sub_cancel, hlast]
    rw [Array.back?_append, hback, Option.some_or] at hf
    cases hf
    exact hin.ends.mpr rfl

theorem pushAll (h : Bracketed frames pauses) {more : List Frame}
    (hmore : ∀ f ∈ more, f.Unpaused) : Bracketed (more.foldl Array.push frames) pauses := by
  induction more generalizing frames with
  | nil => exact h
  | cons f rest ih =>
    obtain ⟨hf, hrest⟩ := List.forall_mem_cons.mp hmore
    exact ih (h.moving hf) hrest

end Bracketed

/-! ### Reading -/

namespace Timeline
open Smoothing

variable {t : Timeline} {n k : Nat} {pauses : List Pause} {place : Int × Int}

theorem edgesAt_of_unpaused {f : Frame} (hf : t.frames[n]? = some f) (h : f.Unpaused) :
    t.edgesAt n = [] := by
  have hend : t.endsPause n = false := by
    rw [endsPause, hf]
    exact h.pauseEnd
  rw [edgesAt, startsPause_of_pause hf h.pause, hend]
  rfl

theorem flatMap_ends {α : Type} (a b : α) (k : Nat) :
    ((List.range (k + 1)).flatMap fun i =>
      (if i = 0 then [a] else []) ++ if i = k then [b] else []) = [a, b] := by
  cases k with
  | zero => rfl
  | succ k =>
    have hbetween : ((List.range k).flatMap fun i =>
        (if i + 1 = 0 then [a] else []) ++ if i + 1 = k + 1 then [b] else []) = [] := by
      refine List.flatMap_eq_nil_iff.mpr fun i hi => ?_
      have hne : i ≠ k := Nat.ne_of_lt (List.mem_range.mp hi)
      simp [hne]
    rw [List.range_succ_eq_map, List.flatMap_cons, List.flatMap_map, List.range_succ,
      List.flatMap_append, hbetween]
    simp

def ClosedBefore (t : Timeline) (n : Nat) : Prop :=
  ∀ m f, n = m + 1 → t.frames[m]? = some f → f.pause = true → f.pauseEnd = true

theorem startsPause_of_closedBefore (h : t.ClosedBefore n) {f : Frame} (hf : t.frames[n]? = some f)
    (hpause : f.pause = true) : t.startsPause n = true := by
  cases n with
  | zero => rw [startsPause_zero hf, hpause]
  | succ m =>
    have hlt : m < t.frames.size := Nat.lt_of_succ_lt (Array.getElem?_eq_some_iff.mp hf).1
    have hg : t.frames[m]? = some t.frames[m] := Array.getElem?_eq_getElem hlt
    have hopen : (t.frames[m].pause && !t.frames[m].pauseEnd) = false := by
      cases hgpause : t.frames[m].pause with
      | false => rfl
      | true => rw [h m _ rfl hg hgpause]; rfl
    rw [startsPause_succ hg hf, hpause, hopen]
    rfl

theorem startsPause_within {f g : Frame} (hg : t.frames[n]? = some g)
    (hf : t.frames[n + 1]? = some f) (hpause : g.pause = true) (hend : g.pauseEnd = false) :
    t.startsPause (n + 1) = false := by
  rw [startsPause_succ hg hf, hpause, hend]
  exact Bool.and_false _

def RestsAt (t : Timeline) (n : Nat) (place : Int × Int) (k : Nat) : Prop :=
  ∀ i ≤ k, ∃ f, t.frames[n + i]? = some f ∧ f.InPause place k i

theorem RestsAt.exists_frame (h : t.RestsAt n place k) {i : Nat} (hfirst : n ≤ i)
    (hlast : i ≤ n + k) : ∃ f, t.frames[i]? = some f ∧ f.InPause place k (i - n) := by
  obtain ⟨j, rfl⟩ := Nat.exists_eq_add_of_le hfirst
  rw [Nat.add_sub_cancel_left]
  exact h j (Nat.le_of_add_le_add_left hlast)

/-- Of the frames of a pause the first one starts it, and the last one ends it. -/
theorem edges_of_restsAt (hclosed : t.ClosedBefore n) (h : t.RestsAt n place k) :
    ((List.range (k + 1)).flatMap fun i => t.edgesAt (n + i)) =
      [.start n, .finish (n + k)] := by
  rw [← flatMap_ends]
  refine List.flatMap_congr fun i hi => ?_
  have hle : i ≤ k := Nat.lt_succ_iff.mp (List.mem_range.mp hi)
  obtain ⟨f, hf, hin⟩ := h i hle
  have hfinish : t.endsPause (n + i) = decide (i = k) := by
    rw [endsPause, hf]
    exact Bool.eq_iff_iff.mpr (hin.ends.trans decide_eq_true_iff.symm)
  have hstart : t.startsPause (n + i) = decide (i = 0) := by
    cases i with
    | zero => exact startsPause_of_closedBefore hclosed hf hin.pause
    | succ i =>
      obtain ⟨g, hg, hgin⟩ := h i (Nat.le_of_succ_le hle)
      have hopen : g.pauseEnd = false := by
        rw [← Bool.not_eq_true, hgin.ends]
        exact Nat.ne_of_lt hle
      exact startsPause_within hg hf hgin.pause hopen
  rw [edgesAt, hstart, hfinish]
  grind

namespace Reads

theorem nil : t.Reads 0 [] where
  edges := rfl
  ordered := .nil
  within _ hp := absurd hp List.not_mem_nil
  paused _ _ hi := absurd hi (Nat.not_lt_zero _)
  still _ hp := absurd hp List.not_mem_nil
  ended _ _ hi := absurd hi (Nat.not_lt_zero _)

/-- One more frame that belongs to no pause. -/
theorem moving (h : t.Reads n pauses) {f : Frame} (hf : t.frames[n]? = some f)
    (hunpaused : f.Unpaused) : t.Reads (n + 1) pauses where
  edges := by
    rw [List.range_succ, List.flatMap_append, h.edges, List.flatMap_singleton,
      edgesAt_of_unpaused hf hunpaused, List.append_nil]
  ordered := h.ordered
  within p hp := ⟨(h.within p hp).1, Nat.lt_succ_of_lt (h.within p hp).2⟩
  paused i g hi hg := by
    rcases Nat.lt_succ_iff_lt_or_eq.mp hi with hlt | rfl
    · exact h.paused i g hlt hg
    · cases hf.symm.trans hg
      constructor
      · intro hpause
        rw [hunpaused.pause] at hpause
        cases hpause
      · rintro ⟨p, hp, -, hlast⟩
        exact absurd (h.within p hp).2 (Nat.not_lt.mpr hlast)
  still := h.still
  ended i g hi hg hend := by
    rcases Nat.lt_succ_iff_lt_or_eq.mp hi with hlt | rfl
    · exact h.ended i g hlt hg hend
    · cases hf.symm.trans hg
      rw [hunpaused.pauseEnd] at hend
      cases hend

/-- One more pause. -/
theorem rest (h : t.Reads n pauses) (hclosed : t.ClosedBefore n) (hrest : t.RestsAt n place k) :
    t.Reads (n + (k + 1)) (pauses ++ [⟨n, n + k⟩]) := by
  have hpaused : ∀ i f, n ≤ i → i < n + (k + 1) → t.frames[i]? = some f → f.pause = true := by
    intro i f hfirst hlast hf
    obtain ⟨g, hg, hin⟩ := hrest.exists_frame hfirst (Nat.lt_succ_iff.mp hlast)
    cases hg.symm.trans hf
    exact hin.pause
  constructor
  case edges =>
    rw [List.range_add, List.flatMap_append, List.flatMap_map, h.edges, List.flatMap_append,
      edges_of_restsAt hclosed hrest]
    rfl
  case ordered =>
    refine List.pairwise_append.mpr ⟨h.ordered, List.pairwise_singleton _ _, fun p hp q hq => ?_⟩
    cases List.mem_singleton.mp hq
    exact (h.within p hp).2
  case within =>
    intro p hp
    rcases List.mem_append.mp hp with hp | hp
    · have hwithin := h.within p hp
      omega
    · cases List.mem_singleton.mp hp
      exact ⟨Nat.le_add_right n k, Nat.lt_succ_self (n + k)⟩
  case paused =>
    intro i f hi hf
    rcases Nat.lt_or_ge i n with hlt | hge
    · rw [h.paused i f hlt hf]
      constructor
      · rintro ⟨p, hp, hi⟩
        exact ⟨p, List.mem_append_left _ hp, hi⟩
      · rintro ⟨p, hp, hi⟩
        rcases List.mem_append.mp hp with hp | hp
        · exact ⟨p, hp, hi⟩
        · cases List.mem_singleton.mp hp
          exact absurd hi.1 (Nat.not_le.mpr hlt)
    · have hlast : i ≤ n + k := Nat.lt_succ_iff.mp hi
      exact iff_of_true (hpaused i f hge hi hf)
        ⟨⟨n, n + k⟩, List.mem_append_right _ (List.mem_singleton_self _), hge, hlast⟩
  case still =>
    intro p hp
    rcases List.mem_append.mp hp with hp | hp
    · exact h.still p hp
    · cases List.mem_singleton.mp hp
      refine ⟨place, fun i hfirst hlast => ?_⟩
      obtain ⟨g, hg, hin⟩ := hrest.exists_frame hfirst hlast
      rw [hg, Option.map_some, hin.coords]
  case ended =>
    intro i f hi hf hend
    rcases Nat.lt_or_ge i n with hlt | hge
    · exact h.ended i f hlt hf hend
    · exact hpaused i f hge hi hf

end Reads

/-- Bracketed frames at the beginning of a timeline are read as the pauses that they hold. -/
theorem reads_of_bracketed {frames : Array Frame} (h : Bracketed frames pauses)
    (hframes : ∀ (i : Nat) (f : Frame), frames[i]? = some f → t.frames[i]? = some f) :
    t.Reads frames.size pauses := by
  induction h with
  | nil => exact .nil
  | @moving frames pauses f h hf ih =>
    have hbefore : ∀ (i : Nat) (g : Frame), frames[i]? = some g → t.frames[i]? = some g := by
      intro i g hg
      apply hframes
      rw [Array.getElem?_push, if_neg (Nat.ne_of_lt (Array.getElem?_eq_some_iff.mp hg).1), hg]
    rw [Array.size_push]
    exact (ih hbefore).moving (hframes _ _ Array.getElem?_push_size) hf
  | @rest frames still pauses place k h hstill ih =>
    have hbefore : ∀ (i : Nat) (g : Frame), frames[i]? = some g → t.frames[i]? = some g := by
      intro i g hg
      apply hframes
      rw [Array.getElem?_append_left (Array.getElem?_eq_some_iff.mp hg).1, hg]
    -- a start is read off the frame before, which may be the end of another pause
    have hclosed : t.ClosedBefore frames.size := by
      intro m f hm hf hpause
      have hlt : m < frames.size := hm ▸ Nat.lt_succ_self m
      have hg : frames[m]? = some frames[m] := Array.getElem?_eq_getElem hlt
      cases (hbefore m _ hg).symm.trans hf
      refine h.closed ?_ hpause
      rw [Array.back?_eq_getElem?, hm, Nat.add_sub_cancel, hg]
    have hrest : t.RestsAt frames.size place k := by
      intro i hi
      obtain ⟨f, hf, hin⟩ := hstill.frame i hi
      refine ⟨f, hframes _ _ ?_, hin⟩
      rw [Array.getElem?_append_right (Nat.le_add_right _ _), Nat.add_sub_cancel_left, hf]
    rw [Array.size_append, hstill.size]
    exact (ih hbefore).rest hclosed hrest

end Timeline
end Choreography
