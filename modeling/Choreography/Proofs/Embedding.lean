import Choreography.Proofs.IndexMap

/-! # A timeline within the smoothed one

The frames of a timeline are those of the smoothed one that do not belong to a bridge, in their
order, and all that refers to them by index still does. -/
namespace Choreography

/-- A frame on the way between two others has no marks and the name of the later one, and stands in
the rectangle that they span. -/
structure Frame.Bridges (c before after : Frame) : Prop where
  bare : c = { Frame.plain c.x c.y with segment := after.segment }
  x_mem : min before.x after.x ≤ c.x ∧ c.x ≤ max before.x after.x
  y_mem : min before.y after.y ≤ c.y ∧ c.y ≤ max before.y after.y

namespace Timeline

def marksAt (t : Timeline) (i : Nat) : Bool × Bool × Bool :=
  (t.startsPause i, t.endsPause i, t.arrives i)

/-- Another timeline has the frames of this one at places of their own, and in between only what
closes the gaps. -/
structure Embeds (t u : Timeline) (place : Nat → Nat) : Prop where
  increasing : ∀ i j, i < j → j < t.total → place i < place j
  same : ∀ i f, t.frames[i]? = some f → u.frames[place i]? = some f
  covered : ∀ j < u.total, ∃ i < t.total,
    j = place i ∨ i + 1 < t.total ∧ place i < j ∧ j < place (i + 1)
  distance : ∀ i before after, t.frames[i]? = some before → t.frames[i + 1]? = some after →
    place (i + 1) = place i +
      if before.pause = false ∧ after.pause = false ∧ after.reset = false ∧
          1 < before.chebyshev after
        then before.chebyshev after else 1
  bridged : ∀ i before after, t.frames[i]? = some before → t.frames[i + 1]? = some after →
    ∀ j, place i < j → j < place (i + 1) → ∃ c, u.frames[j]? = some c ∧ c.Bridges before after
  marks : ∀ i < t.total, u.marksAt (place i) = t.marksAt i
  unmarked : ∀ j < u.total, (∀ i < t.total, j ≠ place i) → u.marksAt j = (false, false, false)
  played : ∀ i < t.total, place i < u.length ↔ i < t.length
  beyond : ∀ i, t.total ≤ i → place i = u.total
  loopStart : u.loopStart = place t.loopStart
  segments : u.segments =
    t.segments.map fun s => { s with start := place s.start, finish := place s.finish }
  syncs : u.syncs = t.syncs.map fun e => { e with tick := place e.tick }

end Timeline

namespace Smoothing

/-! ### The frames of a bridge -/

theorem tdiv_mem_of_nonneg {d : Int} {k parts : Nat} (hd : 0 ≤ d) (hk : k ≤ parts) :
    0 ≤ (d * k).tdiv parts ∧ (d * k).tdiv parts ≤ d := by
  have hnonneg : 0 ≤ d * k := Int.mul_nonneg hd (by omega)
  rw [Int.tdiv_eq_ediv_of_nonneg hnonneg]
  refine ⟨Int.ediv_nonneg hnonneg (by omega), ?_⟩
  rcases Nat.eq_zero_or_pos parts with rfl | hpos
  · simpa using hd
  · refine Int.ediv_le_of_le_mul (by omega) ?_
    exact Int.mul_le_mul_of_nonneg_left (by omega) hd

/-- A part of a distance is not more than all of it. -/
theorem tdiv_mem (d : Int) {k parts : Nat} (hk : k ≤ parts) :
    min 0 d ≤ (d * k).tdiv parts ∧ (d * k).tdiv parts ≤ max 0 d := by
  rcases Int.le_total 0 d with hsign | hsign
  · have hmem := tdiv_mem_of_nonneg hsign hk
    omega
  · have hback := tdiv_mem_of_nonneg (d := -d) (by omega) hk
    rw [Int.neg_mul, Int.neg_tdiv] at hback
    omega

variable {t : Timeline} {source : Array Frame} {i j k steps : Nat} {g f c : Frame}

theorem bridges_between (g f : Frame) (hk : k ≤ steps) : (between g f steps k).Bridges g f := by
  have hx := tdiv_mem (f.x - g.x) hk
  have hy := tdiv_mem (f.y - g.y) hk
  constructor
  · rfl
  · simp only [between, Frame.plain]
    omega
  · simp only [between, Frame.plain]
    omega

theorem bridges_of_mem_inserted (h : c ∈ inserted (some g) f) : c.Bridges g f := by
  simp only [inserted] at h
  split at h
  · simp only [bridge, List.mem_map, List.mem_range'_1] at h
    obtain ⟨k, hk, rfl⟩ := h
    exact bridges_between g f (by omega)
  · simp at h

theorem length_inserted (g f : Frame) :
    (inserted (some g) f).length + 1 = if isGap g f then g.chebyshev f else 1 := by
  simp only [inserted]
  split
  · rename_i hgap
    simp only [isGap, Bool.and_eq_true, decide_eq_true_eq] at hgap
    rw [length_bridge]
    omega
  · rfl

theorem isGap_iff : isGap g f = true ↔
    g.pause = false ∧ f.pause = false ∧ f.reset = false ∧ 1 < g.chebyshev f := by
  simp [isGap, and_assoc]

/-! ### The places of the frames -/

theorem remap_succ_eq (hg : source[i]? = some g) (hf : source[i + 1]? = some f) :
    (Progress.of source).remap (i + 1) =
      (Progress.of source).remap i + if isGap g f then g.chebyshev f else 1 := by
  rw [remap_succ hg hf, Nat.add_assoc, length_inserted]

theorem exists_bridges (hg : source[i]? = some g) (hf : source[i + 1]? = some f)
    (hlow : (Progress.of source).remap i < j) (hhigh : j < (Progress.of source).remap (i + 1)) :
    ∃ c, (Progress.of source).frames[j]? = some c ∧ c.Bridges g f := by
  rw [remap_succ hg hf] at hhigh
  obtain ⟨k, rfl⟩ := Nat.exists_eq_add_of_lt hlow
  have hk : k < (inserted (some g) f).length := by omega
  refine ⟨_, ?_, bridges_of_mem_inserted (List.getElem_mem hk)⟩
  rw [Nat.add_right_comm, getElem?_between hg hf hk, List.getElem?_eq_getElem hk]

theorem covered_remap (hj : j < (Progress.of source).frames.size) :
    ∃ i < source.size, j = (Progress.of source).remap i ∨
      i + 1 < source.size ∧ (Progress.of source).remap i < j ∧
        j < (Progress.of source).remap (i + 1) := by
  obtain ⟨i, hi, hlow, hhigh⟩ := exists_remap_le hj
  refine ⟨i, hi, ?_⟩
  rcases Nat.eq_or_lt_of_le hlow with heq | hlt
  · exact .inl heq.symm
  · refine .inr ⟨?_, hlt, hhigh⟩
    -- nothing comes after the last frame
    rcases Nat.lt_or_ge (i + 1) source.size with hnext | hend
    · exact hnext
    · have hlast := remap_last (Nat.le_antisymm hend (Nat.succ_le_of_lt hi))
      rw [remap_of_size_le hend] at hhigh
      omega

/-! ### Marks -/

theorem startsPause_of_pause (hf : t.frames[i]? = some f) (h : f.pause = false) :
    t.startsPause i = false := by
  simp [Timeline.startsPause, hf, h]

theorem startsPause_zero (hf : t.frames[0]? = some f) : t.startsPause 0 = f.pause := by
  simp [Timeline.startsPause, hf]

theorem startsPause_succ (hg : t.frames[i]? = some g) (hf : t.frames[i + 1]? = some f) :
    t.startsPause (i + 1) = (f.pause && !(g.pause && !g.pauseEnd)) := by
  simp [Timeline.startsPause, hg, hf]

theorem marksAt_of_bridges (hj : t.frames[j]? = some c) (h : c.Bridges g f) :
    t.marksAt j = (false, false, false) := by
  have hpause : c.pause = false := by rw [h.bare]; rfl
  have hend : c.pauseEnd = false := by rw [h.bare]; rfl
  have hterminal : c.terminal = false := by rw [h.bare]; rfl
  simp [Timeline.marksAt, startsPause_of_pause hj hpause, Timeline.endsPause, Timeline.arrives, hj,
    hend, hterminal]

/-- Before a paused frame there is no bridge, so it still follows the same frame. -/
theorem startsPause_remap (hi : i < t.frames.size) :
    (smooth t).startsPause ((Progress.of t.frames).remap i) = t.startsPause i := by
  have hf : t.frames[i]? = some t.frames[i] := Array.getElem?_eq_getElem hi
  have hf' : (smooth t).frames[(Progress.of t.frames).remap i]? = some t.frames[i] :=
    (getElem?_remap hi).trans hf
  cases hpause : t.frames[i].pause with
  | false => rw [startsPause_of_pause hf' hpause, startsPause_of_pause hf hpause]
  | true =>
    cases i with
    | zero =>
      rw [remap_zero] at hf' ⊢
      rw [startsPause_zero hf', startsPause_zero hf]
    | succ k =>
      have hk : k < t.frames.size := Nat.lt_of_succ_lt hi
      have hg : t.frames[k]? = some t.frames[k] := Array.getElem?_eq_getElem hk
      have hgap : isGap t.frames[k] t.frames[k + 1] = false := by simp [isGap, hpause]
      have hnext := remap_succ_eq hg hf
      rw [hgap, if_neg Bool.false_ne_true] at hnext
      rw [hnext] at hf' ⊢
      rw [startsPause_succ ((getElem?_remap hk).trans hg) hf', startsPause_succ hg hf]

theorem marksAt_remap (hi : i < t.frames.size) :
    (smooth t).marksAt ((Progress.of t.frames).remap i) = t.marksAt i := by
  have hsame : (smooth t).frames[(Progress.of t.frames).remap i]? = t.frames[i]? :=
    getElem?_remap hi
  simp only [Timeline.marksAt, startsPause_remap hi, Timeline.endsPause, Timeline.arrives, hsame]

/-! ### The frames that are played -/

theorem lt_length_iff (hi : i < t.frames.size) :
    i < t.length ↔ ∀ p, t.period = some p → i < p := by
  simp only [Timeline.length]
  cases t.period with
  | none => simp [hi]
  | some p => simp only [Nat.lt_min, hi, and_true, Option.some.injEq, forall_eq']

theorem period_smooth_eq_some {q : Nat} : (smooth t).period = some q ↔
    0 < q ∧ ∃ p, t.period = some p ∧ (Progress.of t.frames).remap p = q := by
  simp [smooth, Timeline.build, Option.filter_eq_some_iff, and_comm]

theorem remap_lt_length_smooth (hperiod : t.period ≠ some 0) (hi : i < t.frames.size) :
    (Progress.of t.frames).remap i < (smooth t).length ↔ i < t.length := by
  rw [lt_length_iff (t := smooth t) (remap_lt hi), lt_length_iff hi]
  constructor
  · intro h p hp
    have hpos : 0 < p := Nat.pos_of_ne_zero fun hzero => hperiod (hzero ▸ hp)
    have hpos' : 0 < (Progress.of t.frames).remap p := by
      have hlt : (Progress.of t.frames).remap 0 < (Progress.of t.frames).remap p :=
        remap_lt_remap hpos (by omega)
      omega
    exact (remap_lt_remap_iff hi).mp (h _ (period_smooth_eq_some.mpr ⟨hpos', p, hp, rfl⟩))
  · intro h q hq
    obtain ⟨-, p, hp, rfl⟩ := period_smooth_eq_some.mp hq
    exact remap_lt_remap (h p hp) hi

theorem period_build_ne_zero (frames : Array Frame) (period : Option Nat) (loopStart : Nat)
    (segments : List Span) (syncs : List SyncEvent) :
    (Timeline.build frames period loopStart segments syncs).period ≠ some 0 := by
  simp [Timeline.build, Option.filter_eq_some_iff]

/-- Smoothing leaves the frames in their order, puts only bridges between them, and keeps what is
said about each one: its marks, whether it is played, and all that refers to it by index. -/
theorem embeds_smooth (frames : Array Frame) (period : Option Nat) (loopStart : Nat)
    (segments : List Span) (syncs : List SyncEvent) :
    ∃ place, (Timeline.build frames period loopStart segments syncs).Embeds
      (smooth (Timeline.build frames period loopStart segments syncs)) place := by
  refine ⟨(Progress.of frames).remap, ?_⟩
  constructor
  case increasing => exact fun i j hij hj => remap_lt_remap hij (Nat.lt_trans hij hj)
  case same =>
    intro i f hf
    obtain ⟨hi, -⟩ := Array.getElem?_eq_some_iff.mp hf
    exact (getElem?_remap hi).trans hf
  case covered => exact fun j hj => covered_remap hj
  case distance =>
    intro i before after hbefore hafter
    simp only [← isGap_iff]
    exact remap_succ_eq hbefore hafter
  case bridged =>
    exact fun i before after hbefore hafter j hlow hhigh =>
      exists_bridges hbefore hafter hlow hhigh
  case marks => exact fun i hi => marksAt_remap hi
  case unmarked =>
    intro j hj hnone
    obtain ⟨i, hi, rfl | ⟨hnext, hlow, hhigh⟩⟩ := covered_remap hj
    · exact absurd rfl (hnone i hi)
    · obtain ⟨c, hc, hbridges⟩ := exists_bridges (Array.getElem?_eq_getElem hi)
        (Array.getElem?_eq_getElem hnext) hlow hhigh
      exact marksAt_of_bridges hc hbridges
  case played => exact fun i hi => remap_lt_length_smooth (period_build_ne_zero _ _ _ _ _) hi
  case beyond => exact fun i hi => remap_of_size_le hi
  all_goals rfl

end Smoothing
end Choreography
