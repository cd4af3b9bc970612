import Choreography.Proofs.Additions
import Choreography.Proofs.Continuity
import Choreography.Proofs.Embedding
import Choreography.Proofs.Findings

/-! # Straight ways between two places

A movement between two places divides both axes in as many parts as the longer one has whole steps.
Rounding towards the start takes neither axis back or beyond its goal, and what is left of the longer
axis is shared out over the parts, so that none of them is two steps long. -/
namespace Choreography

def Toward (goal a b : Frame) : Prop := b.x ∈ Set.uIcc a.x goal.x ∧ b.y ∈ Set.uIcc a.y goal.y

namespace Smoothing

/-- A greater part of a distance is between a smaller one and all of it. -/
theorem tdiv_mem_uIcc (d : Int) {j k parts : Nat} (hparts : 0 < parts) (hjk : j ≤ k)
    (hk : k ≤ parts) : (d * k).tdiv parts ∈ Set.uIcc ((d * j).tdiv parts) d := by
  have hnonneg : ∀ e : Int, 0 ≤ e →
      (e * j).tdiv parts ≤ (e * k).tdiv parts ∧ (e * k).tdiv parts ≤ e := by
    intro e he
    refine ⟨?_, (tdiv_mem_of_nonneg he hk).2⟩
    have hle : e * j ≤ e * k := mul_le_mul_of_nonneg_left (by exact_mod_cast hjk) he
    rw [Int.tdiv_eq_ediv_of_nonneg (by positivity), Int.tdiv_eq_ediv_of_nonneg (by positivity)]
    exact Int.ediv_le_ediv (by exact_mod_cast hparts) hle
  rcases le_total 0 d with hsign | hsign
  · obtain ⟨hlow, hhigh⟩ := hnonneg d hsign
    exact Set.mem_uIcc_of_le hlow hhigh
  · obtain ⟨hlow, hhigh⟩ := hnonneg (-d) (by omega)
    simp only [Int.neg_mul, Int.neg_tdiv] at hlow hhigh
    exact Set.mem_uIcc_of_ge (by omega) (by omega)

end Smoothing

namespace Movement
open Recorder Smoothing

variable {first last : Frame} {r : Recorder} {stride hold : Nat}

def waypoints (first last : Frame) (stride : Nat) : List Frame :=
  let count := first.chebyshev last / stride
  if count = 0 then if first.samePlace last then [] else [last]
  else (List.range' 1 count).map (interpolate first last count)

theorem line_eq_addAll (h : (line first last stride hold r).capped = false) :
    line first last stride hold r = r.addAll (held hold (waypoints first last stride)) := by
  unfold line at h ⊢
  unfold waypoints
  dsimp only at h ⊢
  split at h
  · rename_i hcount
    rw [if_pos hcount, if_pos hcount]
    split at h
    · rename_i hsame
      rw [if_pos hsame, if_pos hsame]
      rfl
    · rename_i hsame
      rw [if_neg hsame, if_neg hsame, emitHeld_eq_addAll h, held_singleton]
  · rename_i hcount
    rw [if_neg hcount, if_neg hcount, trace_eq_addAll h]

theorem way_eq_addAll (h : (way first last stride hold r).capped = false) :
    way first last stride hold r =
      r.addAll ((if r.current.coords = first.coords then [] else [first]) ++
        held hold (waypoints first last stride)) := by
  unfold way jumpTo at h ⊢
  by_cases hsame : r.current.samePlace first = true
  · rw [if_pos hsame] at h ⊢
    rw [if_pos ((Frame.samePlace_iff _ _).mp hsame)]
    exact line_eq_addAll h
  · rw [if_neg hsame] at h ⊢
    rw [if_neg fun hcoords => hsame ((Frame.samePlace_iff _ _).mpr hcoords)]
    have hjump := (Adds.andThen id (fun r' => adds_line r' first last stride hold) (fun _ => rfl) _
      (Adds.refl (r.emit first).1)).uncapped h
    rw [emit_eq_add hjump] at h ⊢
    exact line_eq_addAll h

/-! ### Places between two others -/

/-- A step count that is not zero leaves less than two steps for each of its parts. -/
theorem le_of_parts {distance stride : Nat} (h : distance / stride ≠ 0) :
    (distance : Int) ≤ (2 * stride - 1) * (distance / stride : Nat) := by
  have hstride : 0 < stride := Nat.pos_of_ne_zero fun hzero => h (by rw [hzero, Nat.div_zero])
  have hrest := Nat.lt_mul_div_succ distance hstride
  generalize distance / stride = count at h hrest
  have hcount : 0 ≤ ((count : Int) - 1) * ((stride : Int) - 1) :=
    mul_nonneg (by omega) (by omega)
  have hrest' : (distance : Int) + 1 ≤ stride * (count + 1) := by exact_mod_cast hrest
  nlinarith

section Parts

variable {count : Nat} (hfirst : first.Fits) (hlast : last.Fits)

include hfirst hlast in
/-- The products on the way to the first 2 ^ 31 points do not wrap around. -/
theorem wrapSigned_part {i : Nat} (hi : i ≤ 2 ^ 31) :
    wrapSigned 64 ((last.x - first.x) * i) = (last.x - first.x) * i ∧
      wrapSigned 64 ((last.y - first.y) * i) = (last.y - first.y) * i := by
  have hpart : ∀ d : Int, -(2 ^ 32 - 1) ≤ d → d ≤ 2 ^ 32 - 1 →
      wrapSigned 64 (d * i) = d * i := by
    intro d hlow hhigh
    have hi' : (i : Int) ≤ 2 ^ 31 := by exact_mod_cast hi
    refine wrapSigned_of_isSigned ((isSigned_iff 63 _).mpr ⟨?_, ?_⟩) <;> nlinarith
  obtain ⟨hx, hy⟩ := hfirst
  obtain ⟨hx', hy'⟩ := hlast
  rw [isSigned_iff 31] at hx hy hx' hy'
  exact ⟨hpart _ (by omega) (by omega), hpart _ (by omega) (by omega)⟩

include hfirst hlast in
/-- What is between two places within thirty-two bits needs no limit. -/
theorem interpolate_eq {k : Nat} (hk : k ≤ count) :
    interpolate first last count k =
      .plain (first.x + ((last.x - first.x) * k).tdiv count)
        (first.y + ((last.y - first.y) * k).tdiv count) := by
  have hx := tdiv_mem (last.x - first.x) hk
  have hy := tdiv_mem (last.y - first.y) hk
  rw [Frame.fits_iff] at hfirst hlast
  have hfits : (Frame.plain (first.x + ((last.x - first.x) * k).tdiv count)
      (first.y + ((last.y - first.y) * k).tdiv count)).Fits := by
    rw [Frame.fits_iff]
    simp only [Frame.plain]
    omega
  exact congrArg₂ Frame.plain (clampSigned_of_isSigned hfits.1) (clampSigned_of_isSigned hfits.2)

include hfirst hlast in
theorem toward_interpolate (hcount : 0 < count) {j k : Nat} (hjk : j ≤ k) (hk : k ≤ count) :
    Toward last (interpolate first last count j) (interpolate first last count k) := by
  have hx := tdiv_mem_uIcc (last.x - first.x) hcount hjk hk
  have hy := tdiv_mem_uIcc (last.y - first.y) hcount hjk hk
  rw [interpolate_eq hfirst hlast (hjk.trans hk), interpolate_eq hfirst hlast hk]
  rw [Set.mem_uIcc] at hx hy
  constructor
  · rw [Set.mem_uIcc]
    simp only [Frame.plain]
    omega
  · rw [Set.mem_uIcc]
    simp only [Frame.plain]
    omega

include hfirst hlast in
theorem chebyshev_interpolate {bound : Int} (hcount : 0 < count)
    (hbound : (first.chebyshev last : Int) ≤ bound * count) {k : Nat} (hk : k < count) :
    ((interpolate first last count k).chebyshev (interpolate first last count (k + 1)) : Int) ≤
      bound := by
  obtain ⟨hx, hy⟩ := abs_le_chebyshev first last
  have hstepx := tdiv_step hcount (hx.trans hbound) k
  have hstepy := tdiv_step hcount (hy.trans hbound) k
  rw [interpolate_eq hfirst hlast hk.le, interpolate_eq hfirst hlast (k := k + 1) hk]
  rw [abs_le] at hstepx hstepy
  simp only [Frame.chebyshev, Frame.plain]
  omega

include hfirst hlast in
theorem interpolate_count (hcount : 0 < count) (hplain : last = .plain last.x last.y) :
    interpolate first last count count = last := by
  have hne : (count : Int) ≠ 0 := by omega
  rw [interpolate_eq hfirst hlast le_rfl, Int.mul_tdiv_cancel _ hne, Int.mul_tdiv_cancel _ hne,
    add_sub_cancel, add_sub_cancel, ← hplain]

theorem interpolate_zero (hfirst : first.Fits) (hlast : last.Fits)
    (hplain : first = .plain first.x first.y) : interpolate first last count 0 = first := by
  rw [interpolate_eq hfirst hlast (Nat.zero_le count), Nat.cast_zero, mul_zero, mul_zero,
    Int.zero_tdiv, add_zero, add_zero, ← hplain]

end Parts

/-- A way between two places: no frame goes back or beyond the goal on any axis, none is two strides
away from the one before, and the last one is the goal. -/
structure Straight (first last : Frame) (stride : Nat) (points : List Frame) : Prop where
  toward : (first :: points).Pairwise (Toward last)
  near : (first :: points).IsChain fun a b => a.chebyshev b < 2 * stride
  ends : (first :: points).getLast?.map Frame.coords = some last.coords

theorem straight_interpolate {count : Nat} (hcount : 0 < count) (hfirst : first.Fits)
    (hlast : last.Fits) (hfirstPlain : first = .plain first.x first.y)
    (hlastPlain : last = .plain last.x last.y)
    (hparts : (first.chebyshev last : Int) ≤ (2 * stride - 1) * count) :
    Straight first last stride ((List.range' 1 count).map (interpolate first last count)) := by
  have hpoints : first :: (List.range' 1 count).map (interpolate first last count) =
      (List.range (count + 1)).map (interpolate first last count) := by
    rw [List.range_eq_range', List.range'_succ, List.map_cons,
      interpolate_zero hfirst hlast hfirstPlain]
  constructor
  · rw [hpoints, List.pairwise_map]
    refine List.pairwise_lt_range.imp_of_mem fun _ hk hjk => ?_
    exact toward_interpolate hfirst hlast hcount hjk.le (Nat.le_of_lt_succ (List.mem_range.mp hk))
  · rw [hpoints, List.isChain_map]
    refine (List.isChain_range_succ _ _).mpr fun k hk => ?_
    have hstep := chebyshev_interpolate hfirst hlast hcount hparts hk
    rw [Nat.succ_eq_add_one]
    omega
  · rw [hpoints, List.range_succ, List.map_append, List.map_singleton, List.getLast?_concat,
      interpolate_count hfirst hlast hcount hlastPlain, Option.map_some]

theorem straight_waypoints (hstride : 0 < stride) (hfirst : first.Fits) (hlast : last.Fits)
    (hfirstPlain : first = .plain first.x first.y) (hlastPlain : last = .plain last.x last.y) :
    Straight first last stride (waypoints first last stride) := by
  unfold waypoints
  dsimp only
  split
  · rename_i hcount
    have hnear : first.chebyshev last < stride :=
      ((Nat.div_eq_zero_iff).mp hcount).resolve_left hstride.ne'
    split
    · rename_i hsame
      exact ⟨List.pairwise_singleton _ _, List.isChain_singleton _,
        congrArg some ((Frame.samePlace_iff _ _).mp hsame)⟩
    · refine ⟨List.pairwise_pair.mpr ?_, List.isChain_pair.mpr (by omega), rfl⟩
      exact ⟨Set.right_mem_uIcc, Set.right_mem_uIcc⟩
  · rename_i hcount
    exact straight_interpolate (Nat.pos_of_ne_zero hcount) hfirst hlast hfirstPlain hlastPlain
      (le_of_parts hcount)

theorem isSigned_clampSigned (i : Int) : isSigned 32 (clampSigned 32 i) = true := by
  have hrange : (signedRange 32).1 ≤ (signedRange 32).2 := by decide
  rw [isSigned, Bool.and_eq_true, decide_eq_true_eq, decide_eq_true_eq, clampSigned]
  omega

theorem fits_evalPixels (env : Env) (x y : Expr) :
    (Frame.plain (env.evalPixels x) (env.evalPixels y)).Fits :=
  ⟨isSigned_clampSigned _, isSigned_clampSigned _⟩

/-- After frames in a row the widget goes where the last one of them shows it. -/
theorem coords_follow_addAll (h : r.Following) (frames : List Frame) :
    (r.addAll frames).follow.current.coords =
      (frames.getLast?.map Frame.coords).getD r.current.coords := by
  rcases List.eq_nil_or_concat' frames with rfl | ⟨init, last, rfl⟩
  · rw [addAll_nil, follow_eq h]
    rfl
  · have hback := back?_addAll_concat r init last
    have hplace := following_follow (r.addAll (init ++ [last])) (r.label last)
      (by rw [frames_follow, hback])
    rw [List.getLast?_concat, Option.map_some, Option.getD_some, ← coords_label r last, hplace]
    rfl

/-- After a straight way the widget is at its goal, also if the way has no frames. -/
theorem Straight.coords_follow {points : List Frame} (h : Straight first last stride points)
    (hr : r.Following) (hhold : 0 < hold) :
    (r.addAll ((if r.current.coords = first.coords then [] else [first]) ++
      held hold points)).follow.current.coords = last.coords := by
  have hends := h.ends
  rw [coords_follow_addAll hr]
  rcases List.eq_nil_or_concat' points with rfl | ⟨init, f, rfl⟩
  · have hgoal : first.coords = last.coords := Option.some.inj hends
    split
    · rename_i hthere
      exact hthere.trans hgoal
    · exact hgoal
  · obtain ⟨init', hheld⟩ := held_concat hhold init f
    rw [← List.cons_append, List.getLast?_concat] at hends
    rw [hheld, ← List.append_assoc, List.getLast?_concat]
    exact Option.some.inj hends

/-- A movement between two places jumps to the first one, unless the widget is there, and goes a
straight way to the second one, where the widget is afterwards in any case. -/
theorem moveTo_goes_straight (start finish : PointExpr) (step interval : Expr)
    (hsmoothing : r.smoothing = false) (hr : r.Following)
    (hstep : 1 ≤ r.env.evalInteger step) (hinterval : 1 ≤ r.env.evalInteger interval)
    (hkept : (moveTo start finish step interval r).capped = false) :
    let first := Frame.plain (r.env.evalPixels start.x) (r.env.evalPixels start.y)
    let last := Frame.plain (r.env.evalPixels finish.x) (r.env.evalPixels finish.y)
    (∃ points, Straight first last (r.env.evalInteger step).toNat points ∧
      (moveTo start finish step interval r).frames = r.frames ++
        (((if r.current.coords = first.coords then [] else [first]) ++
          held (r.env.evalInteger interval).toNat points).map r.label).toArray) ∧
      (moveTo start finish step interval r).follow.current.coords = last.coords := by
  intro first last
  let stride := (r.env.evalInteger step).toNat
  let hold := (r.env.evalInteger interval).toNat
  let noted := r.noteIntegers [start.x, start.y, finish.x, finish.y, step, interval]
  have hway : moveTo start finish step interval r = way first last stride hold noted :=
    if_neg (by omega)
  have hstraight : Straight first last stride (waypoints first last stride) :=
    straight_waypoints (by omega) (fits_evalPixels _ _ _) (fits_evalPixels _ _ _) rfl rfl
  rw [hway] at hkept
  have hadded := way_eq_addAll hkept
  rw [hway, hadded]
  refine ⟨⟨_, hstraight, ?_⟩, hstraight.coords_follow (r := noted) hr (by omega)⟩
  exact frames_addAll noted hsmoothing _

/-- Five pixels to the left and one down in steps of two, from a place where the widget is not: the
five pixels are shared out over two parts. -/
theorem moveTo_goes_straight_askew :
    let r := (Performance.playing []).recorder
    let start : PointExpr := ⟨.int 9, .int 0⟩
    let finish : PointExpr := ⟨.int 4, .int 1⟩
    r.smoothing = false ∧ r.Following ∧ 1 ≤ r.env.evalInteger (.int 2) ∧
      1 ≤ r.env.evalInteger .one ∧ (moveTo start finish (.int 2) .one r).capped = false ∧
      (moveTo start finish (.int 2) .one r).frames.map Frame.coords = #[(9, 0), (7, 0), (4, 1)] ∧
      (moveTo start finish (.int 2) .one r).follow.current.coords = (4, 1) := by
  intro r start finish
  have hr : r.Following := following_start _ _ _ _
  have hkept : (moveTo start finish (.int 2) .one r).capped = false := by cbv
  exact ⟨rfl, hr, by decide, by decide, hkept, by cbv,
    (moveTo_goes_straight start finish (.int 2) .one rfl hr (by decide) (by decide) hkept).2⟩

end Movement
end Choreography
