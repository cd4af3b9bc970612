import Choreography.Timeline

/-! # Spans and names

While segments are entered and left, the spans of those that have been left and the starts of those
that are still open say how each frame is named: after the first span that covers it, and after the
innermost open segment if no span does. Segments are left from the inside out, so their spans nest.
-/
namespace Choreography

def Span.covers (s : Span) (i : Nat) : Bool := decide (s.start ≤ i) && decide (i < s.finish)

def Span.NestedOrApart (s t : Span) : Prop :=
  (s.start ≤ t.start ∧ t.finish ≤ s.finish) ∨ (t.start ≤ s.start ∧ s.finish ≤ t.finish) ∨
    s.finish ≤ t.start ∨ t.finish ≤ s.start

def nameAt (spans : List Span) (i : Nat) : Option String := (spans.find? (·.covers i)).map Span.name

/-- Frames are named after the spans, and these nest. -/
structure Timeline.Labelled (t : Timeline) : Prop where
  names : ∀ i f, t.frames[i]? = some f → f.segment = nameAt t.segments i
  nested : t.segments.Pairwise Span.NestedOrApart

theorem Timeline.labelled_iff {t : Timeline} : t.Labelled ↔
    (∀ (i : Nat) (h : i < t.frames.size), t.frames[i].segment = nameAt t.segments i) ∧
      t.segments.Pairwise Span.NestedOrApart := by
  constructor
  · intro h
    exact ⟨fun i hi => h.names i _ (Array.getElem?_eq_getElem hi), h.nested⟩
  · intro h
    refine ⟨fun i f hf => ?_, h.2⟩
    obtain ⟨hi, rfl⟩ := Array.getElem?_eq_some_iff.mp hf
    exact h.1 i hi

instance (s t : Span) : Decidable (s.NestedOrApart t) :=
  inferInstanceAs (Decidable (_ ∨ _ ∨ _ ∨ _))

instance (t : Timeline) : Decidable t.Labelled := decidable_of_iff _ Timeline.labelled_iff.symm

/-- A segment that has been entered, and the frame at which it starts. -/
structure Opening where
  name : String
  start : Nat
deriving DecidableEq, Repr

def Span.opening (s : Span) : Opening := ⟨s.name, s.start⟩

def Opening.until (o : Opening) (finish : Nat) : Span := ⟨o.name, o.start, finish⟩

def openNameAt (opened : List Opening) (i : Nat) : Option String :=
  (opened.find? (·.start ≤ i)).map Opening.name

theorem nameAt_concat (spans : List Span) (s : Span) (i : Nat) :
    nameAt (spans ++ [s]) i = (nameAt spans i).or (if s.covers i then some s.name else none) := by
  rw [nameAt, List.find?_append, Option.map_or, nameAt, List.find?_singleton]
  split <;> rfl

theorem nameAt_eq_none {spans : List Span} {i : Nat} (h : ∀ s ∈ spans, s.finish ≤ i) :
    nameAt spans i = none := by
  refine Option.map_eq_none_iff.mpr (List.find?_eq_none.mpr fun s hs => ?_)
  have hover := h s hs
  simp only [Span.covers, Bool.and_eq_true, decide_eq_true_eq]
  omega

theorem openNameAt_cons (o : Opening) (opened : List Opening) (i : Nat) :
    openNameAt (o :: opened) i = if o.start ≤ i then some o.name else openNameAt opened i := by
  by_cases h : o.start ≤ i <;> simp [openNameAt, h]

/-- The later frames have all the earlier ones had, under the same names, and any more of them are
under one name. -/
structure Extends (frames frames' : Array Frame) (name : Option String) : Prop where
  size_le : frames.size ≤ frames'.size
  names : ∀ i f', frames'[i]? = some f' →
    (∃ f, frames[i]? = some f ∧ f'.segment = f.segment) ∨
      (frames.size ≤ i ∧ f'.segment = name)

/-- The spans of the segments that have been left, in their order, and the open segments, the
innermost first, with the frames so far. -/
structure Labels (spans : List Span) (opened : List Opening) (frames : Array Frame) : Prop where
  closed : ∀ s ∈ spans, s.start ≤ s.finish ∧ s.finish ≤ frames.size
  nested : spans.Pairwise Span.NestedOrApart
  begun : ∀ o ∈ opened, o.start ≤ frames.size
  ordered : opened.Pairwise fun inner outer => outer.start ≤ inner.start
  apart : ∀ s ∈ spans, ∀ o ∈ opened, o.start ≤ s.start ∨ s.finish ≤ o.start
  names : ∀ i f, frames[i]? = some f → f.segment = (nameAt spans i).or (openNameAt opened i)

namespace Labels
variable {spans : List Span} {opened : List Opening} {frames frames' : Array Frame}

theorem start : Labels [] [] #[] where
  closed := by simp
  nested := .nil
  begun := by simp
  ordered := .nil
  apart := by simp
  names := by simp

theorem enter (h : Labels spans opened frames) (name : String) :
    Labels spans (⟨name, frames.size⟩ :: opened) frames where
  closed := h.closed
  nested := h.nested
  begun := List.forall_mem_cons.mpr ⟨Nat.le_refl _, h.begun⟩
  ordered := List.pairwise_cons.mpr ⟨h.begun, h.ordered⟩
  apart s hs := List.forall_mem_cons.mpr ⟨.inr (h.closed s hs).2, h.apart s hs⟩
  names i f hf := by
    obtain ⟨hlt, -⟩ := Array.getElem?_eq_some_iff.mp hf
    have hnot : ¬ frames.size ≤ i := by omega
    rw [openNameAt_cons, if_neg hnot]
    exact h.names i f hf

theorem leave {o : Opening} (h : Labels spans (o :: opened) frames) :
    Labels (spans ++ [o.until frames.size]) opened frames where
  closed s hs := by
    rcases List.mem_append.mp hs with hs | hs
    · exact h.closed s hs
    · rw [List.mem_singleton.mp hs]
      exact ⟨h.begun o List.mem_cons_self, Nat.le_refl _⟩
  nested := by
    refine List.pairwise_append.mpr ⟨h.nested, List.pairwise_singleton _ _, fun s hs t ht => ?_⟩
    rw [List.mem_singleton.mp ht]
    rcases h.apart s hs o List.mem_cons_self with hinside | hbefore
    · exact .inr (.inl ⟨hinside, (h.closed s hs).2⟩)
    · exact .inr (.inr (.inl hbefore))
  begun x hx := h.begun x (List.mem_cons_of_mem o hx)
  ordered := (List.pairwise_cons.mp h.ordered).2
  apart s hs x hx := by
    rcases List.mem_append.mp hs with hs | hs
    · exact h.apart s hs x (List.mem_cons_of_mem o hx)
    · rw [List.mem_singleton.mp hs]
      exact .inl ((List.pairwise_cons.mp h.ordered).1 x hx)
  names i f hf := by
    obtain ⟨hlt, -⟩ := Array.getElem?_eq_some_iff.mp hf
    -- the frames since the segment was entered are those that its span covers
    have hcovers : (o.until frames.size).covers i = decide (o.start ≤ i) := by
      change (decide (o.start ≤ i) && decide (i < frames.size)) = _
      rw [decide_eq_true hlt, Bool.and_true]
    rw [h.names i f hf, nameAt_concat, Option.or_assoc, openNameAt_cons, hcovers]
    by_cases hstart : o.start ≤ i <;> simp [hstart, Opening.until]

/-- New frames are named after the innermost open segment. -/
theorem extend (h : Labels spans opened frames)
    (hframes : Extends frames frames' (opened.head?.map Opening.name)) :
    Labels spans opened frames' where
  closed s hs := ⟨(h.closed s hs).1, Nat.le_trans (h.closed s hs).2 hframes.size_le⟩
  nested := h.nested
  begun o ho := Nat.le_trans (h.begun o ho) hframes.size_le
  ordered := h.ordered
  apart := h.apart
  names i f' hf' := by
    rcases hframes.names i f' hf' with ⟨f, hf, hsame⟩ | ⟨hnew, hname⟩
    · rw [hsame]
      exact h.names i f hf
    · have hnone : nameAt spans i = none :=
        nameAt_eq_none fun s hs => Nat.le_trans (h.closed s hs).2 hnew
      rw [hname, hnone, Option.none_or]
      cases opened with
      | nil => rfl
      | cons o opened =>
        have hbegun := Nat.le_trans (h.begun o List.mem_cons_self) hnew
        rw [openNameAt_cons, if_pos hbegun]
        rfl

end Labels
end Choreography
