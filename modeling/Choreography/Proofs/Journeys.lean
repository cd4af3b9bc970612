import Choreography.Proofs.Additions
import Choreography.Proofs.Executions

/-! # Journeys of cumulative movements

A clipped scroll and a slide remember how far they have come. Over all executions that go on from one
memory the offsets of the frames only grow: an execution covers what it is farther than all before
it, and one that is not farther adds at most the arrival, once. -/
namespace Choreography
namespace Movement
open Recorder

variable {r : Recorder} {p : Pace} {t : Travel} {motion : Motion}

/-! ### One execution -/

/-- What is left of a walk, point by point; the last frame is marked as the arrival. -/
def landing (origin : Frame) (p : Pace) (moved : Int) : List Frame :=
  (held p.interval ((offsets moved p).map (along origin p.direction))).modifyLast Frame.asTerminal

/-- Only the last frame, which is at the distance, is marked. -/
theorem landing_concat (hp : p.Moves) {moved : Int} (hmoved : moved < p.distance) (origin : Frame) :
    ∃ init, held p.interval ((offsets moved p).map (along origin p.direction)) =
        init ++ [along origin p.direction p.distance] ∧
      landing origin p moved = init ++ [(along origin p.direction p.distance).asTerminal] := by
  obtain ⟨hstep, hinterval, -⟩ := hp
  obtain ⟨n, -, -, -, hoffsets⟩ := offsets_eq hstep hmoved
  obtain ⟨init, hheld⟩ := held_concat hinterval
    (((List.range' 1 n).map fun i : Nat => moved + i * p.step).map (along origin p.direction))
    (along origin p.direction p.distance)
  rw [landing, hoffsets, List.map_append, List.map_singleton, hheld, List.modifyLast_concat]
  exact ⟨init, rfl, rfl⟩

theorem markTerminal_landing (hp : p.Moves) {moved : Int} (hmoved : moved < p.distance)
    (origin : Frame) :
    (r.addAll (held p.interval ((offsets moved p).map (along origin p.direction)))).markTerminal =
      r.addAll (landing origin p moved) := by
  obtain ⟨init, hheld, hlanding⟩ := landing_concat hp hmoved origin
  rw [hheld, hlanding, markTerminal_addAll]

def onward (t : Travel) (p : Pace) : Travel :=
  { t with moved := max t.moved p.distance, settled := t.settled || p.distance ≤ t.moved }

def leftover (t : Travel) (p : Pace) (r : Recorder) : List Frame :=
  let target := along t.origin p.direction p.distance
  if t.moved < p.distance then landing t.origin p t.moved
  else if !t.settled ∧ r.current.coords ≠ target.coords then [target.asTerminal] else []

theorem leftover_ne_nil (hp : p.Moves) (hmoved : t.moved < p.distance) : leftover t p r ≠ [] := by
  obtain ⟨init, -, hlanding⟩ := landing_concat hp hmoved t.origin
  rw [leftover, if_pos hmoved, hlanding]
  exact List.concat_ne_nil _ _

theorem isAt_iff (hr : r.Following) (hframes : r.frames ≠ #[]) (place : Frame) :
    isAt r place = true ↔ r.current.coords = place.coords := by
  obtain ⟨f, hf⟩ : ∃ f, r.frames.back? = some f := by
    cases hback : r.frames.back? with
    | none => exact absurd (Array.back?_eq_none_iff.mp hback) hframes
    | some f => exact ⟨f, rfl⟩
  have hplace : f.coords = r.current.coords := hr f hf
  rw [isAt, hf, Option.map_some, Option.getD_some, Frame.samePlace_iff, hplace]

theorem settle_eq_addAll (hr : r.Following) (hframes : r.frames ≠ #[])
    (hdirection : t.direction = p.direction) (h : (settle t p r).capped = false) :
    settle t p r = r.addAll (if r.current.coords ≠ (along t.origin p.direction p.distance).coords
      then [(along t.origin p.direction p.distance).asTerminal] else []) := by
  unfold settle at h ⊢
  dsimp only at h ⊢
  rw [hdirection] at h ⊢
  split
  · rename_i hthere
    rw [if_neg (not_not_intro ((isAt_iff hr hframes _).mp hthere))]
    rfl
  · rename_i haway
    rw [if_neg haway] at h
    rw [if_pos fun hthere => haway ((isAt_iff hr hframes _).mpr hthere), emit_eq_add h]
    rfl

/-- Where no frame is dropped, an execution adds what is left of the distance. -/
theorem cumulate_eq_addAll (hp : p.Moves) (hmax : p.distance ≤ (signedRange 32).2)
    (hexact : Exact t.moved p) (hdirection : t.direction = p.direction) (hr : r.Following)
    (hframes : p.distance ≤ t.moved → r.frames ≠ #[])
    (h : (cumulate t p r).1.capped = false) :
    cumulate t p r = (r.addAll (leftover t p r), onward t p) := by
  have hsame : { p with direction := t.direction } = p := by rw [hdirection]
  unfold cumulate at h ⊢
  unfold leftover onward
  split at h
  · rename_i hmoved
    have hclamped : clampSigned 32 p.distance = p.distance := by
      refine clampSigned_of_isSigned ?_
      have hlow : (signedRange 32).1 ≤ 0 := by decide
      have hpos := hp.2.2
      rw [isSigned, Bool.and_eq_true, decide_eq_true_eq, decide_eq_true_eq]
      omega
    have hwalk : (walk r t.origin p t.moved).1.capped = false := by
      unfold proceed at h
      dsimp only at h
      rw [hsame] at h
      split at h <;> exact h
    rw [if_pos hmoved, if_pos hmoved, proceed, hsame, walk_eq_addAll hp.1 hexact hmoved hwalk]
    dsimp only
    rw [if_pos (Int.le_refl _), markTerminal_landing hp hmoved t.origin, hclamped]
    have hmax' : max t.moved p.distance = p.distance := by omega
    have hfar : decide (p.distance ≤ t.moved) = false := decide_eq_false (Int.not_le.mpr hmoved)
    rw [hmax', hfar, Bool.or_false]
  · rename_i hmoved
    have hle := Int.not_lt.mp hmoved
    have hmax' : max t.moved p.distance = t.moved := by omega
    rw [if_neg hmoved, if_neg hmoved, hmax', decide_eq_true hle, Bool.or_true]
    cases hsettled : t.settled with
    | true =>
      simp only [if_true, Bool.not_true, Bool.false_eq_true, false_and, if_false, addAll_nil]
      rw [← hsettled]
    | false =>
      rw [hsettled] at h
      simp only [Bool.false_eq_true, if_false, Bool.not_false, true_and] at h ⊢
      rw [settle_eq_addAll hr (hframes hle) hdirection h]

/-! ### Executions in a row -/

/-- An execution of a cumulative movement: what was recorded before and after it. -/
structure Leg where
  before : Recorder
  pace : Pace
  after : Recorder

def furthest (legs : List Leg) : Int := legs.foldl (fun far leg => max far leg.pace.distance) 0

def Rising (legs : List Leg) : Prop :=
  legs.Pairwise fun leg leg' => leg.pace.distance < leg'.pace.distance

instance (legs : List Leg) : Decidable (Rising legs) :=
  inferInstanceAs (Decidable (List.Pairwise _ _))

/-- How far a movement has come after some executions, before a further one: it starts where the first
one of them began, and it is settled once an execution did not go farther than those before it. -/
def travelled (earlier : List Leg) (leg : Leg) : Travel where
  origin := (earlier.headD leg).before.current
  direction := leg.pace.direction
  moved := furthest earlier
  settled := !decide (Rising earlier)

def routeFrom (moved : Int) : List Leg → List Int
  | [] => []
  | leg :: rest => offsets moved leg.pace ++ routeFrom (max moved leg.pace.distance) rest

/-- All offsets from the origin at which executions hold the widget, in the order of the frames. -/
def route (legs : List Leg) : List Int := routeFrom 0 legs

def StepsFitFrom (moved : Int) : List Leg → Prop
  | [] => True
  | leg :: rest => (moved < leg.pace.distance → moved + leg.pace.step < 2 ^ 63) ∧
      StepsFitFrom (max moved leg.pace.distance) rest

instance decidableStepsFitFrom : (moved : Int) → (legs : List Leg) →
    Decidable (StepsFitFrom moved legs)
  | _, [] => .isTrue trivial
  | moved, leg :: rest =>
      have := decidableStepsFitFrom (max moved leg.pace.distance) rest
      inferInstanceAs (Decidable (_ ∧ _))

/-- Whenever an execution goes farther than those before it, the offset after its first step is an
integer of sixty-four bits. -/
def StepsFit (legs : List Leg) : Prop := StepsFitFrom 0 legs

instance (legs : List Leg) : Decidable (StepsFit legs) := inferInstanceAs (Decidable (StepsFitFrom _ _))

variable {legs earlier : List Leg} {leg : Leg}

theorem furthest_concat (legs : List Leg) (leg : Leg) :
    furthest (legs ++ [leg]) = max (furthest legs) leg.pace.distance := by
  rw [furthest, List.foldl_concat, furthest]

theorem furthest_nonneg (legs : List Leg) : 0 ≤ furthest legs := by
  induction legs using List.reverseRecOn with
  | nil => exact Int.le_refl 0
  | append_singleton legs leg ih =>
    rw [furthest_concat]
    exact le_max_of_le_left ih

theorem furthest_lt_iff {far : Int} (hfar : 0 < far) :
    furthest legs < far ↔ ∀ leg ∈ legs, leg.pace.distance < far := by
  induction legs using List.reverseRecOn with
  | nil => exact ⟨fun _ _ hleg => absurd hleg List.not_mem_nil, fun _ => hfar⟩
  | append_singleton legs leg ih =>
    rw [furthest_concat, max_lt_iff, ih, List.forall_mem_append, List.forall_mem_singleton]

theorem le_furthest (hleg : leg ∈ legs) : leg.pace.distance ≤ furthest legs := by
  induction legs using List.reverseRecOn with
  | nil => cases hleg
  | append_singleton legs last ih =>
    rw [furthest_concat]
    rcases List.mem_append.mp hleg with hold | hlast
    · exact le_max_of_le_left (ih hold)
    · rw [List.mem_singleton.mp hlast]
      exact le_max_right _ _

theorem rising_concat (hleg : leg.pace.Moves) :
    Rising (legs ++ [leg]) ↔ Rising legs ∧ furthest legs < leg.pace.distance := by
  rw [Rising, List.pairwise_append, furthest_lt_iff hleg.2.2]
  simp only [List.pairwise_singleton, List.mem_singleton, forall_eq, true_and, Rising]

theorem routeFrom_concat (moved : Int) (legs : List Leg) (leg : Leg) :
    routeFrom moved (legs ++ [leg]) = routeFrom moved legs ++
      offsets (legs.foldl (fun far leg => max far leg.pace.distance) moved) leg.pace := by
  induction legs generalizing moved with
  | nil => exact List.append_nil _
  | cons first rest ih =>
    rw [List.cons_append, routeFrom, ih, routeFrom, List.append_assoc, List.foldl_cons]

theorem route_concat (legs : List Leg) (leg : Leg) :
    route (legs ++ [leg]) = route legs ++ offsets (furthest legs) leg.pace :=
  routeFrom_concat 0 legs leg

theorem stepsFitFrom_concat (moved : Int) (legs : List Leg) (leg : Leg) :
    StepsFitFrom moved (legs ++ [leg]) ↔ StepsFitFrom moved legs ∧
      (legs.foldl (fun far leg => max far leg.pace.distance) moved < leg.pace.distance →
        legs.foldl (fun far leg => max far leg.pace.distance) moved + leg.pace.step < 2 ^ 63) := by
  induction legs generalizing moved with
  | nil => simp only [List.nil_append, StepsFitFrom, List.foldl_nil, and_true, true_and]
  | cons first rest ih => simp only [List.cons_append, StepsFitFrom, ih, List.foldl_cons, and_assoc]

theorem stepsFit_concat (legs : List Leg) (leg : Leg) :
    StepsFit (legs ++ [leg]) ↔ StepsFit legs ∧
      (furthest legs < leg.pace.distance → furthest legs + leg.pace.step < 2 ^ 63) :=
  stepsFitFrom_concat 0 legs leg

/-- The memory of a movement is what its executions make of it. -/
theorem onward_travelled (hleg : leg.pace.Moves) :
    onward (travelled earlier leg) leg.pace = travelled (earlier ++ [leg]) leg := by
  have hhead : (earlier ++ [leg]).headD leg = earlier.headD leg := by
    cases earlier with
    | nil => rfl
    | cons first rest => rfl
  have hsettled : (!decide (Rising earlier) || decide (leg.pace.distance ≤ furthest earlier)) =
      !decide (Rising (earlier ++ [leg])) := by
    rw [decide_eq_decide.mpr (rising_concat hleg), Bool.decide_and, Bool.not_and,
      ← decide_not (p := furthest earlier < leg.pace.distance)]
    simp only [Int.not_lt]
  rw [onward, travelled, travelled, hhead, furthest_concat, ← hsettled]

/-- No offset of a route is beyond the largest distance. -/
theorem le_of_mem_route (hlegs : ∀ leg ∈ legs, leg.pace.Moves) {o : Int} (ho : o ∈ route legs) :
    o ≤ furthest legs := by
  induction legs using List.reverseRecOn with
  | nil => cases ho
  | append_singleton legs leg ih =>
    rw [List.forall_mem_append, List.forall_mem_singleton] at hlegs
    rw [route_concat, List.mem_append] at ho
    rw [furthest_concat]
    rcases ho with hold | hnew
    · exact le_max_of_le_left (ih hlegs.1 hold)
    · exact le_max_of_le_right (mem_offsets hlegs.2.1 hnew).2

/-- A route never stays at an offset and never goes back. -/
theorem pairwise_route (hlegs : ∀ leg ∈ legs, leg.pace.Moves) :
    (route legs).Pairwise (· < ·) := by
  induction legs using List.reverseRecOn with
  | nil => exact List.Pairwise.nil
  | append_singleton legs leg ih =>
    rw [List.forall_mem_append, List.forall_mem_singleton] at hlegs
    rw [route_concat, List.pairwise_append]
    refine ⟨ih hlegs.1, pairwise_offsets hlegs.2.1, fun o ho o' ho' => ?_⟩
    exact lt_of_le_of_lt (le_of_mem_route hlegs.1 ho) (mem_offsets hlegs.2.1 ho').1

/-- An execution adds what those before it have left of its distance and remembers how far it came. -/
structure Covers (memory : Recorder → Option Travel) (earlier : List Leg) (leg : Leg) : Prop where
  remembers : memory leg.after = some (travelled (earlier ++ [leg]) leg)
  frames : leg.after.frames =
    (leg.before.addAll (leftover (travelled earlier leg) leg.pace leg.before)).frames

theorem split_concat {l : Leg} {later : List Leg} (h : legs ++ [leg] = earlier ++ l :: later) :
    (∃ later', legs = earlier ++ l :: later') ∨ (legs = earlier ∧ leg = l) := by
  rcases List.eq_nil_or_concat' later with rfl | ⟨later', last, rfl⟩
  · obtain ⟨hlegs, hleg⟩ := List.append_inj' h rfl
    exact .inr ⟨hlegs, List.singleton_inj.mp hleg⟩
  · rw [← List.cons_append, ← List.append_assoc] at h
    exact .inl ⟨later', (List.append_inj' h rfl).1⟩

def ride (memory : Recorder → Option Travel) (leg : Leg) (notices : List Notice) :
    Recorder × Travel :=
  cumulate ((memory leg.before).getD (departure leg.before leg.pace)) leg.pace
    (leg.before.note notices)

/-- An execution goes on from a memory and writes down how far it comes. -/
structure TakesUp (memory : Recorder → Option Travel) (leg : Leg) (notices : List Notice) :
    Prop where
  frames : leg.after.frames = (ride memory leg notices).1.frames
  capped : leg.after.capped = (ride memory leg notices).1.capped
  remembers : memory leg.after = some (ride memory leg notices).2

/-- After some executions: each has covered what was left, and the memory says so. -/
structure Underway (memory : Recorder → Option Travel) (legs : List Leg) (r : Recorder) : Prop where
  remembers : memory r = legs.getLast?.map (travelled legs)
  begun : legs ≠ [] → r.frames ≠ #[]
  covers : ∀ earlier leg later, legs = earlier ++ leg :: later → Covers memory earlier leg

variable {memory : Recorder → Option Travel}

/-- An execution goes on from where the ones before it have come. -/
theorem Underway.departs (h : Underway memory legs leg.before)
    (hlegs : ∀ l ∈ legs, l.pace.direction = leg.pace.direction) :
    (memory leg.before).getD (departure leg.before leg.pace) = travelled legs leg := by
  rw [h.remembers]
  rcases List.eq_nil_or_concat' legs with rfl | ⟨init, last, rfl⟩
  · rfl
  · have hlast := hlegs last (List.mem_append_right _ List.mem_cons_self)
    rw [List.getLast?_concat, Option.map_some, Option.getD_some, travelled, travelled, hlast]
    cases init <;> rfl

theorem Underway.takeUp {notices : List Notice} (h : Underway memory legs leg.before)
    (hlegs : ∀ l ∈ legs, l.pace.direction = leg.pace.direction) (hleg : leg.pace.Moves)
    (hmax : leg.pace.distance ≤ (signedRange 32).2)
    (hfits : furthest legs < leg.pace.distance → furthest legs + leg.pace.step < 2 ^ 63)
    (hfollowing : leg.before.Following)
    (htakesUp : TakesUp memory leg notices) (hkept : leg.after.capped = false) :
    Underway memory (legs ++ [leg]) leg.after := by
  obtain ⟨hframes, hcapped, hmemory⟩ := htakesUp
  have hride : ride memory leg notices =
      cumulate (travelled legs leg) leg.pace (leg.before.note notices) := by
    rw [ride, h.departs hlegs]
  have hbegun : leg.pace.distance ≤ furthest legs → leg.before.frames ≠ #[] := by
    intro hfar
    refine h.begun ?_
    rintro rfl
    exact absurd hleg.2.2 (Int.not_lt.mpr hfar)
  have hexact : Exact (travelled legs leg).moved leg.pace := by
    have hlimit : (signedRange 32).2 < 2 ^ 62 := by decide
    exact ⟨furthest_nonneg legs, hfits, by omega⟩
  rw [hcapped, hride] at hkept
  have hcumulated := cumulate_eq_addAll (r := leg.before.note notices) hleg hmax hexact rfl
    hfollowing hbegun hkept
  rw [hride, hcumulated] at hframes hmemory
  rw [addAll_note] at hframes
  rw [onward_travelled hleg] at hmemory
  have hadded : leg.after.frames =
    (leg.before.addAll (leftover (travelled legs leg) leg.pace leg.before)).frames := hframes
  refine ⟨?_, fun _ => ?_, fun earlier l later hsplit => ?_⟩
  · rw [hmemory, List.getLast?_concat, Option.map_some]
  · rw [hadded]
    refine addAll_ne_empty _ ?_
    rcases Int.lt_or_le (furthest legs) leg.pace.distance with hnew | hold
    · exact .inr (leftover_ne_nil hleg hnew)
    · exact .inl (hbegun hold)
  · rcases split_concat hsplit with ⟨later', hold⟩ | ⟨rfl, rfl⟩
    · exact h.covers earlier l later' hold
    · exact ⟨hmemory, hadded⟩

/-- Nothing is forgotten as long as the memory stays. -/
theorem Underway.wait {r r' : Recorder} (h : Underway memory legs r) (hlater : Later r r')
    (hmemory : memory r' = memory r) : Underway memory legs r' where
  remembers := hmemory.trans h.remembers
  begun hlegs hempty := by
    obtain ⟨more, hmore⟩ := hlater.grows
    rw [hempty] at hmore
    exact h.begun hlegs (Array.append_eq_empty_iff.mp hmore.symm).1
  covers := h.covers

/-! ### Journeys -/

/-- Executions that never cover ground twice. -/
structure Journey (memory : Recorder → Option Travel) (legs : List Leg) : Prop where
  covers : ∀ (earlier : List Leg) (leg : Leg) (later : List Leg), legs = earlier ++ leg :: later →
    Covers memory earlier leg
  ascends : (route legs).Pairwise (· < ·)
  arrives : ∀ (earlier : List Leg) (leg : Leg) (later : List Leg), legs = earlier ++ leg :: later →
    furthest earlier < leg.pace.distance →
    (offsets (furthest earlier) leg.pace).getLast? = some leg.pace.distance
  /-- The frames are at the offsets of the route, each coordinate limited to thirty-two bits. -/
  limited : ∀ (earlier : List Leg) (leg : Leg) (later : List Leg), legs = earlier ++ leg :: later →
    (travelled earlier leg).origin.Fits → leg.pace.distance ≤ (signedRange 32).2 →
    landing (travelled earlier leg).origin leg.pace (furthest earlier) =
      (held leg.pace.interval ((offsets (furthest earlier) leg.pace).map fun o =>
        (beside (travelled earlier leg).origin leg.pace.direction o).limited)).modifyLast
          Frame.asTerminal
  /-- As long as the distance is within thirty-two bits, no place on the way is limited. -/
  unlimited : ∀ (earlier : List Leg) (leg : Leg) (later : List Leg), legs = earlier ++ leg :: later →
    (travelled earlier leg).origin.Fits →
    (beside (travelled earlier leg).origin leg.pace.direction leg.pace.distance).Fits →
    landing (travelled earlier leg).origin leg.pace (furthest earlier) =
      (held leg.pace.interval ((offsets (furthest earlier) leg.pace).map
        (beside (travelled earlier leg).origin leg.pace.direction))).modifyLast Frame.asTerminal
  /-- Only the first execution that is not farther than those before it may add its arrival. -/
  once : ∀ (earlier : List Leg) (leg : Leg) (between : List Leg) (leg' : Leg) (later : List Leg),
    legs = earlier ++ leg :: (between ++ leg' :: later) →
    leg.pace.distance ≤ furthest earlier →
    leg'.pace.distance ≤ furthest (earlier ++ leg :: between) →
    leg'.after.frames = leg'.before.frames
  rests : ∀ (earlier : List Leg) (leg : Leg) (later : List Leg), legs = earlier ++ leg :: later →
    2 ≤ earlier.length → (∀ l ∈ earlier, l.pace.distance = leg.pace.distance) →
    leg.after.frames = leg.before.frames

theorem Journey.imp {memory' : Recorder → Option Travel} (h : Journey memory legs)
    (himp : ∀ r t, memory r = some t → memory' r = some t) : Journey memory' legs :=
  { h with covers := fun earlier leg later hsplit =>
      { h.covers earlier leg later hsplit with
        remembers := himp _ _ (h.covers earlier leg later hsplit).remembers } }

theorem landing_of_fits {place : Frame} (hp : p.Moves) (hplace : place.Fits)
    (hfar : (beside place p.direction p.distance).Fits) {moved : Int} (hmoved : 0 ≤ moved) :
    landing place p moved = (held p.interval ((offsets moved p).map
      (beside place p.direction))).modifyLast Frame.asTerminal := by
  have hplaces : (offsets moved p).map (along place p.direction) =
      (offsets moved p).map (beside place p.direction) := by
    refine List.map_congr_left fun o ho => ?_
    obtain ⟨hlow, hhigh⟩ := mem_offsets hp.1 ho
    exact along_of_le hplace hfar (by omega) hhigh
  rw [landing, hplaces]

theorem landing_eq_limited {place : Frame} (hp : p.Moves) (hplace : place.Fits)
    (hmax : p.distance ≤ (signedRange 32).2) {moved : Int} (hmoved : 0 ≤ moved) :
    landing place p moved = (held p.interval ((offsets moved p).map fun o =>
      (beside place p.direction o).limited)).modifyLast Frame.asTerminal := by
  have hlimit : (signedRange 32).2 < 2 ^ 32 := by decide
  have hplaces : (offsets moved p).map (along place p.direction) =
      (offsets moved p).map fun o => (beside place p.direction o).limited := by
    refine List.map_congr_left fun o ho => ?_
    obtain ⟨hlow, hhigh⟩ := mem_offsets hp.1 ho
    exact along_eq_limited hplace (by omega) (by omega)
  rw [landing, hplaces]

theorem not_rising {between : List Leg} (hleg : leg.pace.Moves)
    (hle : leg.pace.distance ≤ furthest earlier) : ¬ Rising (earlier ++ leg :: between) := by
  intro hrising
  have hbefore := (List.pairwise_append.mp hrising).2.2
  have hfar := (furthest_lt_iff hleg.2.2).mpr fun l hl => hbefore l hl leg List.mem_cons_self
  exact absurd hfar (Int.not_lt.mpr hle)

/-- Once an execution was not farther than those before it, such an execution adds nothing. -/
theorem Covers.adds_nothing {between : List Leg} {leg' : Leg}
    (h : Covers memory (earlier ++ leg :: between) leg') (hleg : leg.pace.Moves)
    (hle : leg.pace.distance ≤ furthest earlier)
    (hle' : leg'.pace.distance ≤ furthest (earlier ++ leg :: between)) :
    leg'.after.frames = leg'.before.frames := by
  have hnone : leftover (travelled (earlier ++ leg :: between) leg') leg'.pace leg'.before = [] := by
    rw [leftover, travelled, if_neg (Int.not_lt.mpr hle'), decide_eq_false (not_rising hleg hle)]
    exact if_neg fun hunsettled => Bool.false_ne_true hunsettled.1
  rw [h.frames, hnone, addAll_nil]

/-- Executions that each cover what is left make a journey. -/
theorem Underway.journey {r : Recorder} (h : Underway memory legs r)
    (hlegs : ∀ leg ∈ legs, leg.pace.Moves) : Journey memory legs where
  covers := h.covers
  ascends := pairwise_route hlegs
  arrives earlier leg later hsplit hfar := by
    have hleg := hlegs leg (by simp [hsplit])
    exact getLast?_offsets hleg.1 hfar
  limited earlier leg later hsplit hplace hmax := by
    have hleg := hlegs leg (by simp [hsplit])
    exact landing_eq_limited hleg hplace hmax (furthest_nonneg earlier)
  unlimited earlier leg later hsplit hplace hfar := by
    have hleg := hlegs leg (by simp [hsplit])
    exact landing_of_fits hleg hplace hfar (furthest_nonneg earlier)
  once earlier leg between leg' later hsplit hleg hleg' := by
    have hcovers := h.covers (earlier ++ leg :: between) leg' later (by simp [hsplit])
    exact hcovers.adds_nothing (hlegs leg (by simp [hsplit])) hleg hleg'
  rests earlier leg later hsplit hlength hconstant := by
    obtain ⟨first, second, rest, rfl⟩ : ∃ first second rest, earlier = first :: second :: rest := by
      match earlier, hlength with
      | first :: second :: rest, _ => exact ⟨first, second, rest, rfl⟩
    have hsame : ∀ l ∈ first :: second :: rest, l.pace.distance = first.pace.distance :=
      fun l hl => (hconstant l hl).trans (hconstant first List.mem_cons_self).symm
    have hcovers : Covers memory ([first] ++ second :: rest) leg := h.covers _ leg later hsplit
    refine hcovers.adds_nothing (hlegs second (by simp [hsplit])) ?_ ?_
    · rw [hsame second (by simp)]
      exact le_furthest List.mem_cons_self
    · rw [← hconstant first List.mem_cons_self]
      exact le_furthest List.mem_cons_self

/-! ### Clipped scrolls and slides -/

theorem scrollClip_of_moves {site : Site} (h : (paceIn r.env motion).Moves) :
    let out := cumulate ((Assoc.find? site r.clips).getD (departure r (paceIn r.env motion)))
      (paceIn r.env motion) (r.noteIntegers (arguments motion))
    scrollClip site motion r = out.1.setClip site out.2 := atPace_of_moves h

theorem slide_of_moves (h : (paceIn r.env motion).Moves) :
    let out := cumulate ((r.slide.filter (·.direction == motion.direction)).getD
      (departure r (paceIn r.env motion))) (paceIn r.env motion) (r.noteIntegers (arguments motion))
    slide motion r = out.1.setSlide out.2 := atPace_of_moves h

/-- An execution goes in the direction of the memory it goes on from. -/
theorem direction_ride {notices : List Notice}
    (h : ∀ t, memory leg.before = some t → t.direction = leg.pace.direction) :
    (ride memory leg notices).2.direction = leg.pace.direction := by
  have hcumulate : ∀ t p r, (cumulate t p r).2.direction = t.direction := by
    intro t p r
    unfold cumulate
    split
    · rfl
    · split <;> rfl
  rw [ride, hcumulate]
  cases hmemory : memory leg.before with
  | none => rfl
  | some t => exact h t hmemory

end Movement

namespace Machine
open Recorder Movement

def clipAt (site : Site) : Site × Statement → Option Motion
  | (place, .scrollClip motion) => if place = site then some motion else none
  | _ => none

def anySlide : Site × Statement → Option Motion
  | (_, .slide motion) => some motion
  | _ => none

variable (settings : EngineSettings) (limit : Nat) (select : Site × Statement → Option Motion)

def leg? (m : Machine) : Option Leg :=
  (m.next?.bind select).bind fun motion =>
    if (paceIn m.recorder.env motion).Moves then
      some ⟨m.recorder, paceIn m.recorder.env motion, (m.advance settings limit).recorder⟩
    else none

/-- The executions of the selected movements among the turns of some machines. -/
def legs (ms : List Machine) : List Leg := ms.filterMap (leg? settings limit select)

variable {settings limit select} {start x x' : Machine} {leg : Leg} {motion : Motion}

theorem eq_of_leg (h : leg? settings limit select x = some leg)
    (hadvance : x.advance settings limit = .running x') :
    ∃ motion, x.next?.bind select = some motion ∧ leg.pace.Moves ∧
      leg = ⟨x.recorder, paceIn x.recorder.env motion, x'.recorder⟩ := by
  obtain ⟨motion, hmotion, hleg⟩ := Option.bind_eq_some_iff.mp h
  split at hleg
  · rename_i hmoves
    cases hleg
    rw [hadvance]
    exact ⟨motion, hmotion, hmoves, rfl⟩
  · cases hleg

theorem not_moves_of_no_leg (h : leg? settings limit select x = none)
    (hmotion : x.next?.bind select = some motion) : ¬ (paceIn x.recorder.env motion).Moves := by
  intro hmoves
  rw [leg?, hmotion, Option.bind_some, if_pos hmoves] at h
  cases h

/-- An execution of a selected movement that goes nowhere only reports. -/
theorem note_of_no_leg {site : Site} {s : Statement} {command : String}
    {body : Pace → Recorder → Recorder} (hleg : leg? settings limit select x = none)
    (hadvance : x.advance settings limit = .running x') (hnext : x.next? = some (site, s))
    (hselect : select (site, s) = some motion)
    (hf : s.effect? site = some (atPace command motion (overDistance command body))) :
    ∃ notices, x'.recorder = (x.recorder.note notices).follow := by
  have hmotion : x.next?.bind select = some motion := by rw [hnext, Option.bind_some, hselect]
  obtain ⟨notices, hnote⟩ : ∃ notices, atPace command motion (overDistance command body) x.recorder =
      x.recorder.note notices := atPace_of_not_moves (not_moves_of_no_leg hleg hmotion)
  exact ⟨notices, by rw [recorder_of_next hadvance hnext hf, hnote]⟩

/-- The executions of selected movements that go in a direction go on from a memory, which no other
turn changes. -/
structure Remembered (settings : EngineSettings) (limit : Nat) (start : Machine)
    (select : Site × Statement → Option Motion) (direction : Direction)
    (memory : Recorder → Option Travel) : Prop where
  takesUp : ∀ x x' leg, Reaches settings limit start x → x.advance settings limit = .running x' →
    leg? settings limit select x = some leg → leg.pace.direction = direction →
    ∃ notices, TakesUp memory leg notices
  rests : ∀ x x', Reaches settings limit start x → x.advance settings limit = .running x' →
    leg? settings limit select x = none → memory x'.recorder = memory x.recorder

variable {direction : Direction} {memory : Recorder → Option Travel} {ms : List Machine}

theorem legs_concat (ms : List Machine) (x : Machine) :
    legs settings limit select (ms ++ [x]) =
      legs settings limit select ms ++ (leg? settings limit select x).toList := by
  rw [legs, List.filterMap_append]
  cases h : leg? settings limit select x <;> simp [legs, h]

/-- Each execution in some turns of a run covers what the ones before it, in these turns, have left. -/
theorem underway_of_path (hremembered : Remembered settings limit start select direction memory)
    (hreaches : Reaches settings limit start x) (hstart : start.recorder.Following)
    (hnew : memory x.recorder = none) (hpath : Path settings limit x ms x')
    (hkept : x'.recorder.capped = false)
    (hlegs : ∀ leg ∈ legs settings limit select ms,
      leg.pace.direction = direction ∧ leg.pace.distance ≤ (signedRange 32).2)
    (hfits : StepsFit (legs settings limit select ms)) :
    Underway memory (legs settings limit select ms) x'.recorder := by
  revert hkept hlegs hfits
  refine hpath.induction (P := fun seen y => y.recorder.capped = false →
    (∀ leg ∈ legs settings limit select seen,
      leg.pace.direction = direction ∧ leg.pace.distance ≤ (signedRange 32).2) →
    StepsFit (legs settings limit select seen) →
    Underway memory (legs settings limit select seen) y.recorder) (fun _ _ _ => ?_) ?_
  · exact ⟨hnew, fun h => absurd rfl h, fun earlier leg later h => by simp [legs] at h⟩
  · intro seen y y' hy hadvance ih hkept hlegs hfits
    have hpast := hreaches.trans hy
    have hfollowing := following_reaches hpast hstart
    have hlater := later_of_advance hadvance hfollowing
    -- If the turn is an execution, it is the last one so far.
    rw [legs_concat] at hlegs hfits ⊢
    rw [List.forall_mem_append] at hlegs
    cases hleg : leg? settings limit select y with
    | none =>
      rw [hleg, Option.toList_none, List.append_nil] at hfits
      rw [Option.toList_none, List.append_nil]
      have hbefore := ih (hlater.uncapped hkept) hlegs.1 hfits
      exact hbefore.wait hlater (hremembered.rests y y' hpast hadvance hleg)
    | some leg =>
      rw [hleg, Option.toList_some] at hlegs hfits
      obtain ⟨hpastFits, hlegFits⟩ := (stepsFit_concat _ _).mp hfits
      have hbefore := ih (hlater.uncapped hkept) hlegs.1 hpastFits
      obtain ⟨hdirection, hmax⟩ := List.forall_mem_singleton.mp hlegs.2
      obtain ⟨motion, -, hmoves, hparts⟩ := eq_of_leg hleg hadvance
      obtain ⟨notices, htakesUp⟩ :=
        hremembered.takesUp y y' leg hpast hadvance hleg hdirection
      subst hparts
      exact hbefore.takeUp (fun l hl => (hlegs.1 l hl).1.trans hdirection.symm) hmoves hmax
        hlegFits hfollowing htakesUp hkept

theorem next?_of_clipAt {site : Site} (h : x.next?.bind (clipAt site) = some motion) :
    x.next? = some (site, .scrollClip motion) := by
  obtain ⟨⟨place, s⟩, hnext, hselect⟩ := Option.bind_eq_some_iff.mp h
  unfold clipAt at hselect
  split at hselect
  · rename_i heq
    cases heq
    split at hselect
    · rename_i hplace
      cases hselect
      rw [hnext, hplace]
    · cases hselect
  · cases hselect

theorem remembered_clip (hstart : start.recorder.Following) (site : Site) (direction : Direction) :
    Remembered settings limit start (clipAt site) direction
      fun r => Assoc.find? site r.clips where
  takesUp := by
    intro x x' leg hreaches hadvance hleg hdirection
    obtain ⟨motion, hmotion, hmoves, hparts⟩ := eq_of_leg hleg hadvance
    subst hparts
    have hrecorder := recorder_of_next hadvance (next?_of_clipAt hmotion) rfl
    rw [scrollClip_of_moves hmoves, follow_same] at hrecorder
    refine ⟨(arguments motion).flatMap x.recorder.env.evalIntegerFaults, ?_, ?_, ?_⟩
    · rw [hrecorder]
      rfl
    · rw [hrecorder]
      rfl
    · rw [hrecorder]
      exact Assoc.find?_assign_self _ _ _
  rests := by
    intro x x' hreaches hadvance hleg
    by_cases h : ∃ motion, x.next? = some (site, .scrollClip motion)
    · obtain ⟨motion, hnext⟩ := h
      obtain ⟨notices, hrecorder⟩ := note_of_no_leg hleg hadvance hnext (if_pos rfl) rfl
      rw [hrecorder, follow_same]
      rfl
    · exact find?_clips_advance hadvance (following_reaches hreaches hstart) fun motion hnext =>
        h ⟨motion, hnext⟩

theorem next?_of_anySlide (h : x.next?.bind anySlide = some motion) :
    ∃ site, x.next? = some (site, .slide motion) := by
  obtain ⟨⟨site, s⟩, hnext, hselect⟩ := Option.bind_eq_some_iff.mp h
  unfold anySlide at hselect
  split at hselect
  · rename_i heq
    cases heq
    cases hselect
    exact ⟨site, hnext⟩
  · cases hselect

theorem remembered_slide (hstart : start.recorder.Following) (direction : Direction) :
    Remembered settings limit start anySlide direction
      fun r => r.slide.filter (·.direction == direction) where
  takesUp := by
    intro x x' leg hreaches hadvance hleg hdirection
    obtain ⟨motion, hmotion, hmoves, hparts⟩ := eq_of_leg hleg hadvance
    obtain ⟨site, hnext⟩ := next?_of_anySlide hmotion
    subst hparts
    subst hdirection
    have hrecorder := recorder_of_next hadvance hnext rfl
    rw [slide_of_moves hmoves, follow_same] at hrecorder
    refine ⟨(arguments motion).flatMap x.recorder.env.evalIntegerFaults, ?_, ?_, ?_⟩
    · rw [hrecorder]
      rfl
    · rw [hrecorder]
      rfl
    · rw [hrecorder]
      refine Option.filter_eq_some_iff.mpr ⟨rfl, beq_iff_eq.mpr (direction_ride fun t ht => ?_)⟩
      exact beq_iff_eq.mp (Option.filter_eq_some_iff.mp ht).2
  rests := by
    intro x x' hreaches hadvance hleg
    by_cases h : ∃ site motion, x.next? = some (site, .slide motion)
    · obtain ⟨site, motion, hnext⟩ := h
      obtain ⟨notices, hrecorder⟩ := note_of_no_leg hleg hadvance hnext rfl rfl
      rw [hrecorder, follow_same]
      rfl
    · rw [slide_advance hadvance (following_reaches hreaches hstart) fun site motion hnext =>
        h ⟨site, motion, hnext⟩]

/-- No slide is remembered but in the direction of the last execution. -/
theorem slide_of_path (hstart : start.recorder.Following) (hnew : start.recorder.slide = none)
    (hpath : Path settings limit start ms x) (direction : Direction)
    (hlast : ∀ leg ∈ (legs settings limit anySlide ms).getLast?, leg.pace.direction ≠ direction) :
    x.recorder.slide.filter (·.direction == direction) = none := by
  have hremembered : ∀ d, Remembered settings limit start anySlide d
      fun r => r.slide.filter (·.direction == d) := remembered_slide hstart
  revert direction
  refine hpath.induction (P := fun seen y => ∀ direction,
    (∀ leg ∈ (legs settings limit anySlide seen).getLast?, leg.pace.direction ≠ direction) →
    y.recorder.slide.filter (·.direction == direction) = none) (fun direction _ => ?_) ?_
  · rw [hnew]
    rfl
  · intro seen y y' hreaches hadvance ih direction hlast
    rw [legs_concat] at hlast
    cases hleg : leg? settings limit anySlide y with
    | none =>
      rw [hleg, Option.toList_none, List.append_nil] at hlast
      exact ((hremembered direction).rests y y' hreaches hadvance hleg).trans (ih direction hlast)
    | some leg =>
      rw [hleg, Option.toList_some, List.getLast?_concat] at hlast
      obtain ⟨notices, htakesUp⟩ :=
        (hremembered leg.pace.direction).takesUp y y' leg hreaches hadvance hleg rfl
      obtain ⟨motion, -, -, hparts⟩ := eq_of_leg hleg hadvance
      obtain ⟨hslide, hdirection⟩ := Option.filter_eq_some_iff.mp htakesUp.remembers
      have hafter : leg.after = y'.recorder := by rw [hparts]
      rw [← hafter, hslide, Option.filter_eq_none_iff]
      intro t ht hsame
      cases ht
      exact hlast leg rfl ((beq_iff_eq.mp hdirection).symm.trans (beq_iff_eq.mp hsame))

end Machine

namespace Performance
open Machine Recorder Movement

variable {p : Performance} {maxSteps : Option Nat} {m : Machine} {ms : List Machine}

theorem moves_of_mem_legs {settings : EngineSettings} {limit : Nat}
    {select : Site × Statement → Option Motion} {leg : Leg} {start : Machine}
    (hpath : Path settings limit start ms m) (hleg : leg ∈ legs settings limit select ms) :
    leg.pace.Moves := by
  obtain ⟨x, hx, hxleg⟩ := List.mem_filterMap.mp hleg
  obtain ⟨x', -, hadvance⟩ := hpath.of_mem hx
  obtain ⟨-, -, hmoves, -⟩ := eq_of_leg hxleg hadvance
  exact hmoves

/-- All executions of a clipped scroll go in its direction. -/
theorem direction_of_clip
    (hpath : Path p.settings (p.limit maxSteps) (.start p.program p.recorder) ms m) (site : Site) :
    ∃ direction, ∀ leg ∈ legs p.settings (p.limit maxSteps) (clipAt site) ms,
      leg.pace.direction = direction := by
  have hmotion : ∀ leg ∈ legs p.settings (p.limit maxSteps) (clipAt site) ms,
      ∃ x x' motion, Reaches p.settings (p.limit maxSteps) (.start p.program p.recorder) x ∧
        x.advance p.settings (p.limit maxSteps) = .running x' ∧
        x.next? = some (site, .scrollClip motion) ∧ leg.pace.direction = motion.direction := by
    intro leg hleg
    obtain ⟨x, hx, hxleg⟩ := List.mem_filterMap.mp hleg
    obtain ⟨x', hreaches, hadvance⟩ := hpath.of_mem hx
    obtain ⟨motion, hmotion, -, hparts⟩ := eq_of_leg hxleg hadvance
    exact ⟨x, x', motion, hreaches, hadvance, next?_of_clipAt hmotion, by rw [hparts]; rfl⟩
  cases hlegs : legs p.settings (p.limit maxSteps) (clipAt site) ms with
  | nil => exact ⟨.left, fun leg hleg => absurd hleg List.not_mem_nil⟩
  | cons first rest =>
    rw [hlegs] at hmotion
    obtain ⟨x, x', motion, hx, hadvance, hnext, hfirst⟩ := hmotion first List.mem_cons_self
    refine ⟨motion.direction, fun leg hleg => ?_⟩
    obtain ⟨y, y', motion', hy, hadvance', hnext', hdirection⟩ := hmotion leg hleg
    cases eq_of_next hx hy hadvance hadvance' hnext hnext'
    exact hdirection

/-- The executions of one clipped scroll, and the slides between two changes of their direction, never
cover ground twice, whatever is executed between them, unless the offset after a first step wraps
around. -/
theorem cumulative_journeys
    (hpath : Path p.settings (p.limit maxSteps) (.start p.program p.recorder) ms m)
    (hkept : m.recorder.capped = false) :
    (∀ site, (∀ leg ∈ legs p.settings (p.limit maxSteps) (clipAt site) ms,
        leg.pace.distance ≤ (signedRange 32).2) →
      StepsFit (legs p.settings (p.limit maxSteps) (clipAt site) ms) →
      Journey (fun r => Assoc.find? site r.clips)
        (legs p.settings (p.limit maxSteps) (clipAt site) ms)) ∧
    ∀ direction earlier between later,
      legs p.settings (p.limit maxSteps) anySlide ms = earlier ++ between ++ later →
      (∀ leg ∈ earlier.getLast?, leg.pace.direction ≠ direction) →
      (∀ leg ∈ between,
        leg.pace.direction = direction ∧ leg.pace.distance ≤ (signedRange 32).2) →
      StepsFit between →
      Journey Recorder.slide between := by
  have hstart : (Machine.start p.program p.recorder).recorder.Following := following_start _ _ _ _
  refine ⟨fun site hmax hfits => ?_,
    fun direction earlier between later hsplit hlast hbetween hfits => ?_⟩
  · obtain ⟨direction, hdirection⟩ := direction_of_clip hpath site
    have hunderway := underway_of_path (remembered_clip hstart site direction) .refl hstart rfl
      hpath hkept (fun leg hleg => ⟨hdirection leg hleg, hmax leg hleg⟩) hfits
    exact hunderway.journey fun leg hleg => moves_of_mem_legs hpath hleg
  · obtain ⟨front, last, rfl, hfront, -⟩ := List.filterMap_eq_append_iff.mp hsplit
    obtain ⟨first, middle, rfl, hfirst, hmiddle⟩ := List.filterMap_eq_append_iff.mp hfront
    obtain ⟨y', hpath', hrest⟩ := hpath.split
    obtain ⟨y, hbefore, hduring⟩ := hpath'.split
    -- Before the first of these slides the run remembers none in their direction.
    have hnew := slide_of_path hstart rfl hbefore direction (by rw [legs, hfirst]; exact hlast)
    have hfollowing := following_reaches hpath'.reaches hstart
    have hkept' := (kept_reaches (kept_later y'.recorder) hrest.reaches hfollowing
      (Later.refl _)).uncapped hkept
    have hunderway := underway_of_path (remembered_slide hstart direction) hbefore.reaches hstart
      hnew hduring hkept' (by rw [legs, hmiddle]; exact hbetween)
      (by rw [legs, hmiddle]; exact hfits)
    rw [legs, hmiddle] at hunderway
    have hjourney := hunderway.journey fun leg hleg => moves_of_mem_legs hduring
      (by rw [legs, hmiddle]; exact hleg)
    exact hjourney.imp fun r t ht => (Option.filter_eq_some_iff.mp ht).1

def stairs : Performance := playing [.repeated (.int 3) [
  .scrollClip (.along .right (.int 2)),
  .slide (.along .down .one)]]

/-- In the second pass each movement adds its arrival, since the other one has moved the widget away,
and in the third pass there is nothing left. -/
theorem cumulative_journeys_stairs :
    (stairs.after 9).recorder.capped = false ∧
      (legs stairs.settings (stairs.limit none) (clipAt [0, 0]) (stairs.stretch 0 9)).map
        (·.pace.distance) = [2, 2, 2] ∧
      (stairs.after 9).recorder.frames.map Frame.coords =
        #[(1, 0), (2, 0), (2, 1), (2, 0), (2, 1)] ∧
      Journey (fun r => Assoc.find? [0, 0] r.clips)
        (legs stairs.settings (stairs.limit none) (clipAt [0, 0]) (stairs.stretch 0 9)) ∧
      Journey Recorder.slide
        (legs stairs.settings (stairs.limit none) anySlide (stairs.stretch 0 9)) := by
  have hkept : (stairs.after 9).recorder.capped = false := by decide +kernel
  obtain ⟨hclip, hslide⟩ := cumulative_journeys (stairs.path_stretch 0 9) hkept
  refine ⟨hkept, by decide +kernel, by decide +kernel,
    hclip [0, 0] (by decide +kernel) (by decide +kernel), ?_⟩
  exact hslide .down [] _ [] (List.append_nil _).symm (fun leg hleg => by cases hleg)
    (by decide +kernel) (by decide +kernel)

/-- Goes two pixels to the right from the last place but one that has integers of thirty-two bits. -/
def edge : Performance :=
  { playing [.scrollClip (.along .right (.int 2))] with start := .plain 2147483646 0 }

/-- Beyond thirty-two bits there is no place for an offset, and the widget stays where it is. -/
theorem stays_at_edge :
    (legs edge.settings (edge.limit none) (clipAt [0]) (edge.stretch 0 1)).map
        (fun leg => (leg.pace.distance, leg.pace.step, leg.pace.interval)) = [(2, 1, 1)] ∧
      (edge.after 1).recorder.capped = false ∧
      ¬ ((edge.after 1).recorder.frames.toList.map fun f => f.x - edge.start.x).Pairwise
        (· < ·) ∧
      (edge.after 1).recorder.frames.back?.map (fun f => f.x - edge.start.x) = some 1 := by
  decide +kernel

end Performance
end Choreography
