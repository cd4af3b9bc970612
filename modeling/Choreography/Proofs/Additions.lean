import Choreography.Proofs.Footprints
import Choreography.Proofs.MachineIntegers
import Choreography.Proofs.Turns
import Mathlib.Data.List.Basic

/-! # Frames added in a row

Where no frame is dropped, a movement adds a list of frames, one after the other, each with what
smoothing puts before it. The lists are in closed form: a walk goes over the multiples of its step,
the last one cut off at the distance. -/
namespace Choreography
namespace Recorder

theorem coords_label (r : Recorder) (f : Frame) : (r.label f).coords = f.coords := by
  unfold label
  split <;> rfl

theorem pause_label (r : Recorder) (f : Frame) : (r.label f).pause = f.pause := by
  unfold label
  split <;> rfl

/-- The frames of a pause in a segment; the last one ends it. -/
def pauseFrames (segment : Option String) (place : Frame) : Nat → List Frame
  | 0 => []
  | n + 1 =>
      { place.unmarked.paused with pauseEnd := n == 0, segment := segment } ::
        pauseFrames segment place n

theorem length_pauseFrames (segment : Option String) (place : Frame) (n : Nat) :
    (pauseFrames segment place n).length = n := by
  induction n with
  | zero => rfl
  | succ n ih => rw [pauseFrames, List.length_cons, ih]

theorem getElem?_pauseFrames (segment : Option String) (place : Frame) {n i : Nat} (hi : i < n) :
    ∃ f, (pauseFrames segment place n)[i]? = some f ∧ f.pause = true ∧ f.coords = place.coords ∧
      (f.pauseEnd = true ↔ i + 1 = n) := by
  induction n generalizing i with
  | zero => omega
  | succ n ih =>
    cases i with
    | zero =>
      refine ⟨_, rfl, rfl, rfl, ?_⟩
      rw [beq_iff_eq]
      omega
    | succ i =>
      obtain ⟨f, hf, hpause, hcoords, hend⟩ := ih (i := i) (by omega)
      exact ⟨f, hf, hpause, hcoords, by rw [hend]; omega⟩

theorem coords_of_mem_pauseFrames {segment : Option String} {place f : Frame} {n : Nat}
    (hf : f ∈ pauseFrames segment place n) : f.coords = place.coords := by
  induction n with
  | zero => cases hf
  | succ n ih =>
    rcases List.mem_cons.mp hf with rfl | hf
    · rfl
    · exact ih hf

/-- Adds a frame after the frames that go before it, whatever room there is. -/
def add (r : Recorder) (f : Frame) : Recorder :=
  { r with frames := ((r.filler f).foldl Array.push r.frames).push (r.label f) }

def addAll (r : Recorder) (frames : List Frame) : Recorder := frames.foldl add r

variable (r : Recorder)

@[simp] theorem addAll_nil : r.addAll [] = r := rfl

@[simp] theorem addAll_cons (f : Frame) (rest : List Frame) :
    r.addAll (f :: rest) = (r.add f).addAll rest := rfl

theorem addAll_append (first later : List Frame) :
    r.addAll (first ++ later) = (r.addAll first).addAll later := List.foldl_append

theorem addAll_same (frames : List Frame) :
    r.addAll frames = { r with frames := (r.addAll frames).frames } := by
  induction frames generalizing r with
  | nil => rfl
  | cons f rest ih =>
    rw [addAll_cons, ih]
    rfl

@[simp] theorem label_addAll (frames : List Frame) (f : Frame) :
    (r.addAll frames).label f = r.label f := by
  rw [addAll_same]
  rfl

/-- Without smoothing the frames are added under the name of the active segment. -/
theorem frames_addAll (h : r.smoothing = false) (frames : List Frame) :
    (r.addAll frames).frames = r.frames ++ (frames.map r.label).toArray := by
  induction frames generalizing r with
  | nil => simp
  | cons f rest ih =>
    have hadd : (r.add f).frames = r.frames.push (r.label f) := by simp [add, filler, h]
    have hlabel : (r.add f).label = r.label := rfl
    rw [addAll_cons, ih (r.add f) h, hadd, hlabel, List.map_cons, List.toArray_cons,
      ← Array.append_assoc, Array.append_singleton]

theorem back?_addAll_concat (frames : List Frame) (f : Frame) :
    (r.addAll (frames ++ [f])).frames.back? = some (r.label f) := by
  rw [addAll_append, ← label_addAll r frames]
  exact Array.back?_push

theorem addAll_ne_empty {frames : List Frame} (h : r.frames ≠ #[] ∨ frames ≠ []) :
    (r.addAll frames).frames ≠ #[] := by
  rcases List.eq_nil_or_concat' frames with rfl | ⟨init, f, rfl⟩
  · exact h.resolve_right fun hne => hne rfl
  · intro hempty
    have hback := back?_addAll_concat r init f
    rw [hempty] at hback
    cases hback

/-- To mark the last frame is to add it with the mark. -/
theorem markTerminal_addAll (frames : List Frame) (f : Frame) :
    (r.addAll (frames ++ [f])).markTerminal = r.addAll (frames ++ [f.asTerminal]) := by
  rw [addAll_append, addAll_append]
  generalize r.addAll frames = r'
  simp only [addAll_cons, addAll_nil, add, markTerminal, modify_last_push, filler_asTerminal,
    label_asTerminal]

theorem addAll_note (notices : List Notice) (frames : List Frame) :
    (r.note notices).addAll frames = (r.addAll frames).note notices := by
  induction frames generalizing r with
  | nil => rfl
  | cons f rest ih => exact ih (r.add f)

variable {r}

theorem Adds.uncapped {r' : Recorder} (h : Adds r r') (hr' : r'.capped = false) :
    r.capped = false := (Later.of_adds h).uncapped hr'

theorem emit_eq_add {f : Frame} (h : (r.emit f).1.capped = false) : r.emit f = (r.add f, true) := by
  cases hemit : r.emit f with
  | mk r' kept =>
    rw [hemit] at h
    cases kept with
    | false =>
      rw [(full_of_emit hemit).2] at h
      cases h
    | true => rw [eq_of_emit hemit, add]

theorem emitHeld_eq_addAll {f : Frame} {n : Nat} (h : (r.emitHeld f n).1.capped = false) :
    r.emitHeld f n = (r.addAll (List.replicate n f), true) := by
  induction n generalizing r with
  | zero => rfl
  | succ n ih =>
    rw [emitHeld] at h ⊢
    have hfirst := (Adds.andThen Prod.fst (fun r' => Adds.emitHeld r' f n) (fun _ => rfl) _
      (Adds.refl (r.emit f).1)).uncapped h
    rw [emit_eq_add hfirst] at h ⊢
    exact ih h

theorem emitPause_eq_addAll {place : Frame} {n : Nat} (h : (r.emitPause place n).capped = false) :
    r.emitPause place n = r.addAll (pauseFrames none place n) := by
  induction n generalizing r with
  | zero => rfl
  | succ n ih =>
    rw [emitPause] at h ⊢
    have hfirst := (Adds.andThen id (fun r' => Adds.emitPause r' place n) (fun _ => rfl) _
      (Adds.refl (r.emit _).1)).uncapped h
    rw [emit_eq_add hfirst] at h ⊢
    exact ih h

end Recorder

namespace Movement
open Recorder

def held (interval : Nat) (frames : List Frame) : List Frame :=
  frames.flatMap (List.replicate interval)

theorem held_append (interval : Nat) (first later : List Frame) :
    held interval (first ++ later) = held interval first ++ held interval later :=
  List.flatMap_append

theorem held_singleton (interval : Nat) (f : Frame) :
    held interval [f] = List.replicate interval f := List.flatMap_singleton _ f

theorem held_concat {interval : Nat} (hinterval : 0 < interval) (frames : List Frame) (f : Frame) :
    ∃ init, held interval (frames ++ [f]) = init ++ [f] := by
  obtain ⟨hold, rfl⟩ := Nat.exists_eq_add_one.mpr hinterval
  refine ⟨held (hold + 1) frames ++ List.replicate hold f, ?_⟩
  rw [held_append, held_singleton, List.replicate_succ', List.append_assoc]

theorem mem_of_mem_held {interval : Nat} {frames : List Frame} {f : Frame}
    (hf : f ∈ held interval frames) : f ∈ frames := by
  obtain ⟨g, hg, hfg⟩ := List.mem_flatMap.mp hf
  rwa [List.eq_of_mem_replicate hfg]

variable {r : Recorder}

theorem trace_eq_addAll {point : Nat → Frame} {interval i n : Nat}
    (h : (trace point interval r i n).1.capped = false) :
    trace point interval r i n =
      (r.addAll (held interval ((List.range' i n).map point)), i + n) := by
  induction n generalizing r i with
  | zero => rfl
  | succ n ih =>
    rw [trace] at h ⊢
    have hfirst := (Adds.andThen Prod.fst (fun r' => adds_trace r' point interval (i + 1) n)
      (fun _ => rfl) _ (Adds.refl (r.emitHeld (point i) interval).1)).uncapped h
    rw [emitHeld_eq_addAll hfirst] at h ⊢
    rw [List.range'_succ, List.map_cons, ← List.singleton_append, held_append, held_singleton,
      addAll_append, Nat.add_comm n 1, ← Nat.add_assoc]
    exact ih h

/-- It makes no difference whether an offset has been wrapped around before. -/
theorem along_wrapSigned (place : Frame) (direction : Direction) (amount : Int) :
    along place direction (wrapSigned 64 amount) = along place direction amount := by
  rw [along, along, wrapSigned_add_mul_wrapSigned, wrapSigned_add_mul_wrapSigned]

theorem stride_eq_addAll {p : Pace} {count : Nat} (h : (stride p count r).capped = false) :
    stride p count r = r.addAll (held p.interval ((List.range' 1 count).map fun i : Nat =>
      along r.current p.direction (i * p.step))) := by
  refine (congrArg Prod.fst (trace_eq_addAll h)).trans ?_
  simp only [along_wrapSigned]

/-! ### Offsets of a walk -/

/-- How many steps cover a distance; the last one may be cut off. -/
def stepCount (distance step : Int) : Nat := ((distance + step - 1) / step).toNat

/-- The last step is the first one that reaches the distance. -/
theorem stepCount_spec {distance step : Int} (hstep : 0 < step) (hdistance : 0 < distance) :
    ∃ n : Nat, stepCount distance step = n + 1 ∧ n * step < distance ∧
      distance ≤ (n + 1 : Nat) * step := by
  have hrest := Int.emod_nonneg (distance - 1) (by omega : step ≠ 0)
  have hlt := Int.emod_lt_of_pos (distance - 1) hstep
  have hsplit := Int.mul_ediv_add_emod (distance - 1) step
  have hpart : 0 ≤ (distance - 1) / step := Int.ediv_nonneg (by omega) (by omega)
  have hcount : (distance + step - 1) / step = (distance - 1) / step + 1 := by
    have hmore : distance + step - 1 = distance - 1 + step := by omega
    rw [hmore, Int.add_ediv_of_dvd_right (Int.dvd_refl step), Int.ediv_self (by omega)]
  refine ⟨((distance - 1) / step).toNat, ?_, ?_, ?_⟩
  · rw [stepCount, hcount]
    omega
  · rw [Int.toNat_of_nonneg hpart, Int.mul_comm]
    omega
  · rw [Int.natCast_add, Int.toNat_of_nonneg hpart, Int.add_mul, Int.mul_comm]
    omega

/-- The offsets at which a walk from an offset holds the widget on the way to the distance. -/
def offsets (moved : Int) (p : Pace) : List Int :=
  (List.range' 1 (stepCount (p.distance - moved) p.step)).map fun i : Nat =>
    min (moved + i * p.step) p.distance

variable {moved : Int} {p : Pace}

/-- The offsets are whole steps, but for the last one, which is the distance. -/
theorem offsets_eq (hstep : 0 < p.step) (hmoved : moved < p.distance) :
    ∃ n : Nat, stepCount (p.distance - moved) p.step = n + 1 ∧
      moved + n * p.step < p.distance ∧ p.distance ≤ moved + (n + 1 : Nat) * p.step ∧
      offsets moved p = ((List.range' 1 n).map fun i : Nat => moved + i * p.step) ++
        [p.distance] := by
  obtain ⟨n, hcount, hbefore, hafter⟩ := stepCount_spec hstep (Int.sub_pos.mpr hmoved)
  have hlast : min (moved + (1 + 1 * n : Nat) * p.step) p.distance = p.distance := by
    rw [Nat.one_mul, Nat.add_comm]
    omega
  refine ⟨n, hcount, by omega, by omega, ?_⟩
  rw [offsets, hcount, List.range'_concat, List.map_append, List.map_singleton, hlast]
  refine congrArg (· ++ _) (List.map_congr_left fun i hi => ?_)
  have hpart : (i : Int) * p.step ≤ n * p.step :=
    Int.mul_le_mul_of_nonneg_right (by rw [List.mem_range'_1] at hi; omega) (by omega)
  omega

theorem offsets_of_le (hstep : 0 < p.step) (hmoved : p.distance ≤ moved) : offsets moved p = [] := by
  have hcount : stepCount (p.distance - moved) p.step = 0 := by
    have hneg : (p.distance - moved + p.step - 1) / p.step < 1 :=
      Int.ediv_lt_of_lt_mul hstep (by omega)
    rw [stepCount]
    omega
  rw [offsets, hcount]
  rfl

theorem mem_offsets (hstep : 0 < p.step) {o : Int} (ho : o ∈ offsets moved p) :
    moved < o ∧ o ≤ p.distance := by
  rcases Int.lt_or_le moved p.distance with hmoved | hmoved
  · obtain ⟨i, hi, rfl⟩ := List.mem_map.mp ho
    have hpart : (1 : Int) * p.step ≤ i * p.step :=
      Int.mul_le_mul_of_nonneg_right (by rw [List.mem_range'_1] at hi; omega) (by omega)
    omega
  · rw [offsets_of_le hstep hmoved] at ho
    cases ho

theorem getLast?_offsets (hstep : 0 < p.step) (hmoved : moved < p.distance) :
    (offsets moved p).getLast? = some p.distance := by
  obtain ⟨n, -, -, -, heq⟩ := offsets_eq hstep hmoved
  rw [heq, List.getLast?_concat]

/-- A walk never stays at an offset and never goes back. -/
theorem pairwise_offsets (hstep : 0 < p.step) : (offsets moved p).Pairwise (· < ·) := by
  rcases Int.lt_or_le moved p.distance with hmoved | hmoved
  · obtain ⟨n, -, hbefore, -, heq⟩ := offsets_eq hstep hmoved
    rw [heq, List.pairwise_append, List.pairwise_map]
    refine ⟨(List.pairwise_lt_range' 1).imp fun hlt => ?_, List.pairwise_singleton _ _, ?_⟩
    · have hpart := Int.mul_lt_mul_of_pos_right (Int.ofNat_lt.mpr hlt) hstep
      omega
    · intro a ha b hb
      obtain ⟨i, hi, rfl⟩ := List.mem_map.mp ha
      rw [List.mem_singleton.mp hb]
      have hpart : (i : Int) * p.step ≤ n * p.step :=
        Int.mul_le_mul_of_nonneg_right (by rw [List.mem_range'_1] at hi; omega) (by omega)
      omega
  · rw [offsets_of_le hstep hmoved]
    exact List.Pairwise.nil

/-- One step less is left to go after a step. -/
theorem stepCount_succ {distance step : Int} (hstep : 0 < step) (hdistance : 0 < distance) :
    stepCount distance step = stepCount (distance - step) step + 1 := by
  have hrest : 0 ≤ (distance - 1) / step := Int.ediv_nonneg (by omega) (by omega)
  have hmore : distance + step - 1 = distance - 1 + step := by omega
  rw [stepCount, stepCount, hmore, Int.sub_add_cancel, Int.add_ediv_of_dvd_right (Int.dvd_refl step),
    Int.ediv_self (by omega)]
  omega

/-- A walk goes on from its first offset. -/
theorem offsets_cons (hstep : 0 < p.step) (hmoved : moved < p.distance) :
    offsets moved p =
      min (moved + p.step) p.distance :: offsets (min (moved + p.step) p.distance) p := by
  rcases Int.lt_or_le (moved + p.step) p.distance with hnext | hnext
  · have hcount := stepCount_succ hstep (Int.sub_pos.mpr hmoved)
    rw [Int.sub_sub] at hcount
    rw [Int.min_eq_left (Int.le_of_lt hnext), offsets, offsets, hcount, List.range'_succ,
      List.map_cons, Int.natCast_one, Int.one_mul, Int.min_eq_left (Int.le_of_lt hnext),
      ← List.map_add_range', List.map_map]
    refine congrArg _ (List.map_congr_left fun i _ => ?_)
    rw [Function.comp_apply, Int.natCast_add, Int.natCast_one, Int.add_mul, Int.one_mul,
      Int.add_assoc]
  · obtain ⟨n, -, hbefore, -, heq⟩ := offsets_eq hstep hmoved
    have hnone : n = 0 := by
      by_contra hsome
      have hpart : (1 : Int) * p.step ≤ n * p.step :=
        Int.mul_le_mul_of_nonneg_right (by omega) (Int.le_of_lt hstep)
      omega
    rw [Int.min_eq_right hnext, offsets_of_le hstep (Int.le_refl _), heq, hnone]
    rfl

/-- The steps of a walk do not wrap around. -/
structure Exact (moved : Int) (p : Pace) : Prop where
  nonneg : 0 ≤ moved
  next : moved < p.distance → moved + p.step < 2 ^ 63
  distance : p.distance < 2 ^ 62

/-- The step of a movement is an integer of sixty-four bits. -/
theorem step_paceIn_lt (env : Env) (m : Motion) : (paceIn env m).step < 2 ^ 63 :=
  ((isSigned_iff 63 _).mp (env.isSigned_evalInteger m.step)).2

theorem Exact.next_eq (h : Exact moved p) (hstep : 0 < p.step) (hmoved : moved < p.distance) :
    p.next moved = min (moved + p.step) p.distance := by
  have hsum : isSigned 64 (moved + p.step) = true := by
    have hnonneg := h.nonneg
    have hnext := h.next hmoved
    rw [isSigned_iff 63]
    omega
  rw [Pace.next, wrapSigned_of_isSigned hsum]

theorem Exact.onward (h : Exact moved p) (hstep : 0 < p.step) (hmoved : moved < p.distance) :
    Exact (p.next moved) p := by
  have hnonneg := h.nonneg
  have hdistance := h.distance
  rw [h.next_eq hstep hmoved]
  exact ⟨by omega, by omega, hdistance⟩

theorem foldl_addAll {α : Type} (frames : α → List Frame) (xs : List α) (r : Recorder) :
    xs.foldl (fun r x => r.addAll (frames x)) r = r.addAll (xs.flatMap frames) := by
  induction xs generalizing r with
  | nil => rfl
  | cons x rest ih => rw [List.foldl_cons, ih, List.flatMap_cons, addAll_append]

/-- What goes on from an offset without dropping a frame visits each offset of the walk. -/
theorem goOn_eq_foldl {hold : Int → Recorder → Recorder × Bool} {visit : Int → Recorder → Recorder}
    (hadds : ∀ o r, Adds r (hold o r).1)
    (hvisit : ∀ o r, (hold o r).1.capped = false → hold o r = (visit o r, true))
    (hstep : 0 < p.step) {n : Nat} (hexact : Exact moved p) (hle : moved ≤ p.distance)
    (hn : p.distance ≤ moved + n) (h : (goOn p hold r moved n).1.capped = false) :
    goOn p hold r moved n = ((offsets moved p).foldl (fun r o => visit o r) r, p.distance) := by
  induction n generalizing r moved with
  | zero =>
    have hend : moved = p.distance := by omega
    rw [offsets_of_le hstep (Int.le_of_eq hend.symm), ← hend]
    rfl
  | succ n ih =>
    rcases Int.lt_or_le moved p.distance with hmoved | hend
    · rw [goOn, if_pos hmoved] at h ⊢
      have hfirst := (Adds.andThen Prod.fst (fun r' => Adds.builds.goOn r' hadds (p.next moved) n)
        (fun _ => rfl) _ (Adds.refl (hold (p.next moved) r).1)).uncapped h
      rw [hvisit _ _ hfirst] at h ⊢
      have hnext := hexact.next_eq hstep hmoved
      rw [offsets_cons hstep hmoved, List.foldl_cons, ← hnext]
      exact ih (hexact.onward hstep hmoved) (by omega) (by omega) h
    · rw [goOn_of_le hend, offsets_of_le hstep hend, List.foldl_nil, Int.le_antisymm hle hend]

/-- A walk holds the widget at each of its offsets and covers the distance. -/
theorem walk_eq_addAll {origin : Frame} (hstep : 0 < p.step) (hexact : Exact moved p)
    (hmoved : moved < p.distance) (h : (walk r origin p moved).1.capped = false) :
    walk r origin p moved =
      (r.addAll (held p.interval ((offsets moved p).map (along origin p.direction))),
        p.distance) := by
  have hbound : p.distance ≤ moved + stepBound := by
    have hnonneg := hexact.nonneg
    have hdistance := hexact.distance
    simp only [stepBound]
    omega
  rw [walk, goOn_eq_foldl (fun _ r => Adds.emitHeld r _ p.interval)
    (fun _ _ => emitHeld_eq_addAll) hstep hexact (Int.le_of_lt hmoved) hbound h, foldl_addAll, held,
    List.flatMap_map]

/-! ### Places along a direction -/

def beside (place : Frame) (direction : Direction) (amount : Int) : Frame :=
  .plain (place.x + direction.delta.1 * amount) (place.y + direction.delta.2 * amount)

end Movement

def Frame.limited (f : Frame) : Frame := .plain (clampSigned 32 f.x) (clampSigned 32 f.y)

def Frame.Fits (f : Frame) : Prop := isSigned 32 f.x = true ∧ isSigned 32 f.y = true

theorem Frame.fits_iff (f : Frame) : f.Fits ↔
    ((signedRange 32).1 ≤ f.x ∧ f.x ≤ (signedRange 32).2) ∧
      (signedRange 32).1 ≤ f.y ∧ f.y ≤ (signedRange 32).2 := by
  simp only [Fits, isSigned, Bool.and_eq_true, decide_eq_true_eq]

namespace Movement

variable {place : Frame} {direction : Direction} {amount limit : Int}

@[simp] theorem x_beside (place : Frame) (direction : Direction) (amount : Int) :
    (beside place direction amount).x = place.x + direction.delta.1 * amount := rfl

@[simp] theorem y_beside (place : Frame) (direction : Direction) (amount : Int) :
    (beside place direction amount).y = place.y + direction.delta.2 * amount := rfl

/-- What is between two places within thirty-two bits is within them. -/
theorem fits_beside (hplace : place.Fits) (hlimit : (beside place direction limit).Fits)
    (hpos : 0 ≤ amount) (hle : amount ≤ limit) : (beside place direction amount).Fits := by
  rw [Frame.fits_iff] at hplace hlimit ⊢
  simp only [x_beside, y_beside] at hlimit ⊢
  cases direction <;> simp only [Direction.delta] at hlimit ⊢ <;> omega

/-- Between numbers of thirty-two bits nothing wraps around before it is limited. -/
theorem along_eq_limited (hplace : place.Fits) (hlow : -2 ^ 32 ≤ amount) (hhigh : amount ≤ 2 ^ 32) :
    along place direction amount = (beside place direction amount).limited := by
  obtain ⟨hx, hy⟩ := (Frame.fits_iff _).mp hplace
  simp only [signedRange] at hx hy
  have hsums : isSigned 64 (place.x + direction.delta.1 * amount) = true ∧
      isSigned 64 (place.y + direction.delta.2 * amount) = true := by
    rw [isSigned_iff 63, isSigned_iff 63]
    cases direction <;> simp only [Direction.delta] <;> omega
  rw [along, wrapSigned_of_isSigned hsums.1, wrapSigned_of_isSigned hsums.2]
  rfl

theorem along_of_fits (h : (beside place direction amount).Fits) :
    along place direction amount = beside place direction amount := by
  have hwide : ∀ {i : Int}, isSigned 32 i = true → isSigned 64 i = true := fun hi =>
    (isSigned_iff 63 _).mpr (by rw [isSigned_iff 31] at hi; omega)
  have hx := wrapSigned_of_isSigned (hwide h.1)
  have hy := wrapSigned_of_isSigned (hwide h.2)
  exact congrArg₂ Frame.plain ((congrArg _ hx).trans (clampSigned_of_isSigned h.1))
    ((congrArg _ hy).trans (clampSigned_of_isSigned h.2))

theorem along_of_le (hplace : place.Fits) (hlimit : (beside place direction limit).Fits)
    (hpos : 0 ≤ amount) (hle : amount ≤ limit) :
    along place direction amount = beside place direction amount :=
  along_of_fits (fits_beside hplace hlimit hpos hle)

theorem beside_opposite (place : Frame) (direction : Direction) (limit amount : Int) :
    beside (beside place direction limit) direction.opposite amount =
      beside place direction (limit - amount) := by
  have hback : ∀ a δ : Int, a + δ * limit + -δ * amount = a + δ * (limit - amount) := by
    intro a δ
    rw [Int.mul_sub, Int.neg_mul, Int.sub_eq_add_neg, Int.add_assoc]
  rw [beside, Direction.delta_opposite, x_beside, y_beside, hback, hback, beside]

theorem coords_beside_inj {o o' : Int} :
    (beside place direction o).coords = (beside place direction o').coords ↔ o = o' := by
  refine ⟨fun h => ?_, fun h => by rw [h]⟩
  simp only [Frame.coords, x_beside, y_beside, Prod.mk.injEq] at h
  cases direction <;> simp only [Direction.delta] at h <;> omega

end Movement
end Choreography
