import Choreography.Proofs.Recording

/-! # Footprints of statements

Besides frames and reports a statement changes little of what is recorded. The movements that
remember something write down their own memory, a wrapping scroll and a bounce offer their cycle as
the period, a PERIOD declares one, and an announcement is kept with its tick. -/
namespace Choreography

structure Frame.Unpaused (f : Frame) : Prop where
  pause : f.pause = false
  pauseEnd : f.pauseEnd = false

namespace Recorder

/-- A relation between a recorder and what becomes of it when frames are added one after the other,
if they satisfy a condition that all frames without marks satisfy. -/
structure Builds (R : Recorder → Recorder → Prop) (fits : Frame → Prop) : Prop where
  refl : ∀ r, R r r
  trans : ∀ {r₁ r₂ r₃}, R r₁ r₂ → R r₂ r₃ → R r₁ r₃
  emit : ∀ r f, fits f → R r (r.emit f).1
  plain : ∀ x y, fits (.plain x y)

namespace Builds

variable {R : Recorder → Recorder → Prop} {fits : Frame → Prop} {f : Frame}

/-- What goes on only if all frames were kept adds its own to these. -/
theorem andThen (h : Builds R fits) {β : Type} (g : β → Recorder) {go stop : Recorder → β}
    {r : Recorder} (hgo : ∀ r', R r' (g (go r'))) (hstop : ∀ r', g (stop r') = r')
    (x : Recorder × Bool) : R r x.1 → R r (g (match x with
      | (r', true) => go r'
      | (r', false) => stop r')) := by
  obtain ⟨r', _ | _⟩ := x <;> intro hx
  · change R r (g (stop r'))
    rw [hstop]
    exact hx
  · exact h.trans hx (hgo r')

theorem emitHeld (h : Builds R fits) (r : Recorder) (hf : fits f) (n : Nat) :
    R r (r.emitHeld f n).1 := by
  induction n generalizing r with
  | zero => exact h.refl r
  | succ n ih =>
    rw [Recorder.emitHeld]
    exact h.andThen Prod.fst ih (fun _ => rfl) _ (h.emit r f hf)

def FitsPaused (fits : Frame → Prop) : Prop :=
  ∀ (place : Frame) (last : Bool), fits { place.unmarked.paused with pauseEnd := last }

theorem emitPause (h : Builds R fits) (hfits : FitsPaused fits) (r : Recorder) (place : Frame)
    (n : Nat) : R r (r.emitPause place n) := by
  induction n generalizing r with
  | zero => exact h.refl r
  | succ n ih =>
    rw [Recorder.emitPause]
    exact h.andThen id ih (fun _ => rfl) _ (h.emit r _ (hfits place _))

end Builds

namespace Adds

theorem note (r : Recorder) (notices : List Notice) : Adds r (r.note notices) :=
  ⟨rfl, ⟨#[], by simp [Recorder.note]⟩, id⟩

theorem builds : Builds Adds fun _ => True where
  refl := refl
  trans := trans
  emit r f _ := emit r f
  plain _ _ := trivial

theorem andThen {β : Type} (g : β → Recorder) {go stop : Recorder → β} {r : Recorder}
    (hgo : ∀ r', Adds r' (g (go r'))) (hstop : ∀ r', g (stop r') = r') (x : Recorder × Bool) :
    Adds r x.1 → Adds r (g (match x with
      | (r', true) => go r'
      | (r', false) => stop r')) := builds.andThen g hgo hstop x

theorem emitHeld (r : Recorder) (f : Frame) (n : Nat) : Adds r (r.emitHeld f n).1 :=
  builds.emitHeld r trivial n

theorem emitPause (r : Recorder) (place : Frame) (n : Nat) : Adds r (r.emitPause place n) :=
  builds.emitPause (fun _ _ => trivial) r place n

end Adds

theorem note_note (r : Recorder) (first later : List Notice) :
    (r.note first).note later = r.note (first ++ later) := by
  simp only [note, List.foldl_append]

theorem setImplicitPeriod_same (r : Recorder) (ticks : Nat) : r.setImplicitPeriod ticks =
    { r with implicitPeriod := (r.setImplicitPeriod ticks).implicitPeriod } := by
  unfold setImplicitPeriod
  split <;> rfl

@[simp] theorem frames_setImplicitPeriod (r : Recorder) (ticks : Nat) :
    (r.setImplicitPeriod ticks).frames = r.frames := by rw [setImplicitPeriod_same]

@[simp] theorem capped_setImplicitPeriod (r : Recorder) (ticks : Nat) :
    (r.setImplicitPeriod ticks).capped = r.capped := by rw [setImplicitPeriod_same]

def Records (r r' : Recorder) : Prop :=
  r' = { r with frames := r'.frames, capped := r'.capped, log := r'.log }

namespace Records

theorem refl (r : Recorder) : Records r r := rfl

theorem trans {r₁ r₂ r₃ : Recorder} (h₁ : Records r₁ r₂) (h₂ : Records r₂ r₃) :
    Records r₁ r₃ := by
  unfold Records at *
  rw [h₂, h₁]

theorem note (r : Recorder) (notices : List Notice) : Records r (r.note notices) := rfl

theorem markTerminal (r : Recorder) : Records r r.markTerminal := rfl

theorem builds : Builds Records fun _ => True where
  refl := refl
  trans := trans
  emit r f _ := (Adds.emit r f).same
  plain _ _ := trivial

variable {r r' : Recorder}

theorem smoothing (h : Records r r') : r'.smoothing = r.smoothing := by rw [h]

theorem clips (h : Records r r') : r'.clips = r.clips := by rw [h]

theorem slide (h : Records r r') : r'.slide = r.slide := by rw [h]

theorem finishedScrolls (h : Records r r') : r'.finishedScrolls = r.finishedScrolls := by rw [h]

theorem explicitPeriod (h : Records r r') : r'.explicitPeriod = r.explicitPeriod := by rw [h]

end Records
end Recorder

/-! ### Movements that add frames -/

namespace Movement

def rebound (p : Pace) (r : Recorder) : Recorder :=
  let boundary := along r.current p.direction p.distance
  let paused := (walk r r.current p 0).1.emitPause boundary p.pauseAtEnds
  (comeBack r.current boundary p (paused.emit boundary).1).emitPause r.current p.pauseAtEnds

end Movement

open Movement

namespace Recorder.Builds

variable {R : Recorder → Recorder → Prop} {fits : Frame → Prop} (h : Builds R fits) (r : Recorder)
include h

theorem trace {point : Nat → Frame} (hpoint : ∀ i, fits (point i)) (interval i n : Nat) :
    R r (trace point interval r i n).1 := by
  induction n generalizing r i with
  | zero => exact h.refl r
  | succ n ih =>
    rw [Movement.trace]
    exact h.andThen Prod.fst (fun r' => ih r' (i + 1)) (fun _ => rfl) _
      (h.emitHeld r (hpoint i) interval)

theorem goOn {p : Pace} {hold : Int → Recorder → Recorder × Bool}
    (hhold : ∀ offset r, R r (hold offset r).1) (moved : Int) (n : Nat) :
    R r (goOn p hold r moved n).1 := by
  induction n generalizing r moved with
  | zero => exact h.refl r
  | succ n ih =>
    rw [Movement.goOn]
    split
    · exact h.andThen Prod.fst (fun r' => ih r' (p.next moved)) (fun _ => rfl) _ (hhold _ r)
    · exact h.refl r

theorem walk (origin : Frame) (p : Pace) (moved : Int) : R r (walk r origin p moved).1 :=
  h.goOn r (fun _ r => h.emitHeld r (h.plain _ _) p.interval) moved stepBound

theorem stride (p : Pace) (count : Nat) : R r (stride p count r) :=
  h.trace r (fun _ => h.plain _ _) _ _ _

theorem jumpTo {place : Frame} (hplace : fits place) : R r (jumpTo place r).1 := by
  unfold Movement.jumpTo
  split
  · exact h.refl r
  · exact h.emit r place hplace

theorem line (first : Frame) {last : Frame} (hlast : fits last) (stride hold : Nat) :
    R r (line first last stride hold r) := by
  unfold Movement.line
  dsimp only
  split
  · split
    · exact h.refl r
    · exact h.emitHeld r hlast hold
  · exact h.trace r (fun _ => h.plain _ _) _ _ _

theorem way {first last : Frame} (hfirst : fits first) (hlast : fits last) (stride hold : Nat) :
    R r (way first last stride hold r) :=
  h.andThen id (fun r' => h.line r' first hlast stride hold) (fun _ => rfl) _ (h.jumpTo r hfirst)

theorem arrive {origin : Frame} (horigin : fits origin) (p : Pace) : R r (arrive origin p r) := by
  unfold Movement.arrive
  dsimp only
  split
  · exact h.trans (h.emit r _ (h.plain _ _)) (h.emitHeld _ horigin p.interval)
  · exact h.emitHeld r horigin p.interval

theorem comeBack {origin : Frame} (horigin : fits origin) (boundary : Frame) (p : Pace) :
    R r (comeBack origin boundary p r) := by
  refine h.goOn r (fun offset r' => ?_) 0 stepBound
  split
  · exact h.arrive r' horigin p
  · exact h.emitHeld r' (h.plain _ _) p.interval

theorem rebound (hfits : FitsPaused fits) (p : Pace) : R r (rebound p r) := by
  have horigin : fits r.current := h.plain _ _
  have hout := h.walk r r.current p 0
  have hpaused := h.trans hout
    (h.emitPause hfits _ (along r.current p.direction p.distance) p.pauseAtEnds)
  have hturned := h.trans hpaused (h.emit _ (along r.current p.direction p.distance) (h.plain _ _))
  have hback := h.trans hturned
    (h.comeBack _ horigin (along r.current p.direction p.distance) p)
  exact h.trans hback (h.emitPause hfits _ r.current p.pauseAtEnds)

theorem settle (harrival : ∀ x y, fits (Frame.plain x y).asTerminal) (t : Travel) (p : Pace) :
    R r (settle t p r) := by
  unfold Movement.settle
  dsimp only
  split
  · exact h.refl r
  · exact h.emit r _ (harrival _ _)

/-- The arrival may be marked on a frame that was there before. -/
theorem cumulate (hmark : ∀ r, R r r.markTerminal)
    (harrival : ∀ x y, fits (Frame.plain x y).asTerminal) (t : Travel) (p : Pace) :
    R r (cumulate t p r).1 := by
  unfold Movement.cumulate
  split
  · have hwalk := h.walk r t.origin { p with direction := t.direction } t.moved
    unfold proceed
    dsimp only
    split
    · exact h.trans hwalk (hmark _)
    · exact hwalk
  · split
    · exact h.refl r
    · exact h.settle r harrival t p

end Recorder.Builds

namespace Movement
open Recorder

variable (r : Recorder)

theorem adds_trace (point : Nat → Frame) (interval i n : Nat) :
    Adds r (trace point interval r i n).1 := Adds.builds.trace r (fun _ => trivial) _ _ _

theorem adds_line (first last : Frame) (stride hold : Nat) :
    Adds r (line first last stride hold r) := Adds.builds.line r first trivial stride hold

theorem adds_arrive (origin : Frame) (p : Pace) : Adds r (arrive origin p r) :=
  Adds.builds.arrive r trivial p

theorem adds_comeBack (origin boundary : Frame) (p : Pace) :
    Adds r (comeBack origin boundary p r) := Adds.builds.comeBack r trivial boundary p

theorem bounce_eq (p : Pace) :
    bounce p r = (rebound p r).setImplicitPeriod (rebound p r).frames.size := rfl

theorem adds_rebound (p : Pace) : Adds r (rebound p r) :=
  Adds.builds.rebound r (fun _ _ => trivial) p

def Pace.Moves (p : Pace) : Prop := 0 < p.step ∧ 0 < p.interval ∧ 0 < p.distance

instance (p : Pace) : Decidable p.Moves := inferInstanceAs (Decidable (_ ∧ _ ∧ _))

/-- The arguments of a movement, in the order in which their faults are reported. -/
def arguments (m : Motion) : List Expr := [m.step, m.interval, m.distance, m.gap, m.pauseAtEnds]

variable {r} {command : String} {m : Motion} {body : Pace → Recorder → Recorder}

/-- A movement with a positive step and a positive interval goes on at its pace. -/
theorem atPace_of_pos (hstep : 0 < r.env.evalInteger m.step)
    (hinterval : 0 < r.env.evalInteger m.interval) :
    atPace command m body r = body (paceIn r.env m) (r.noteIntegers (arguments m)) := by
  have husable : ¬ (r.env.evalInteger m.step ≤ 0 ∨ r.env.evalInteger m.interval ≤ 0) := by omega
  have hnotes : (r.noteIntegers [m.step, m.interval]).noteIntegers
      [m.distance, m.gap, m.pauseAtEnds] = r.noteIntegers (arguments m) := by
    change (r.note _).note ([m.distance, m.gap, m.pauseAtEnds].flatMap r.env.evalIntegerFaults) = _
    rw [note_note, ← List.flatMap_append]
    rfl
  simp only [atPace, pace, if_neg husable, hnotes]
  rfl

/-- A movement without a pace only reports. -/
theorem atPace_of_unusable
    (h : r.env.evalInteger m.step ≤ 0 ∨ r.env.evalInteger m.interval ≤ 0) :
    atPace command m body r = (r.noteIntegers [m.step, m.interval]).note [.unusableStep command
      (r.env.evalInteger m.step) (r.env.evalInteger m.interval)] := by
  simp only [atPace, pace, if_pos h]

theorem atPace_of_moves (h : (paceIn r.env m).Moves) :
    atPace command m (overDistance command body) r =
      body (paceIn r.env m) (r.noteIntegers (arguments m)) := by
  obtain ⟨hstep, hinterval, hdistance⟩ := h
  have hinterval' : 0 < (r.env.evalInteger m.interval).toNat := hinterval
  rw [atPace_of_pos hstep (by omega), overDistance, if_neg (Int.not_le.mpr hdistance)]

/-- A movement that goes nowhere only reports. -/
theorem atPace_of_not_moves (h : ¬ (paceIn r.env m).Moves) :
    ∃ notices, atPace command m (overDistance command body) r = r.note notices := by
  by_cases husable : r.env.evalInteger m.step ≤ 0 ∨ r.env.evalInteger m.interval ≤ 0
  · rw [atPace_of_unusable husable, noteIntegers, note_note]
    exact ⟨_, rfl⟩
  · have hdistance : (paceIn r.env m).distance ≤ 0 := by
      refine Int.not_lt.mp fun hpos => h ⟨?_, ?_, hpos⟩
      · exact Int.not_le.mp fun hstep => husable (.inl hstep)
      · exact Int.pos_iff_toNat_pos.mp (Int.not_le.mp fun hinterval => husable (.inr hinterval))
    rw [atPace_of_pos (by omega) (by omega), overDistance, if_pos hdistance, noteIntegers, note_note]
    exact ⟨_, rfl⟩

/-- What holds of a recorder with more reports, and after the movement at its pace, holds in any
case. -/
theorem atPace_cases {P : Recorder → Prop} (hnote : ∀ notices, P (r.note notices))
    (hbody : ∀ notices, P (body (paceIn r.env m) (r.note notices))) :
    P (atPace command m body r) := by
  by_cases h : r.env.evalInteger m.step ≤ 0 ∨ r.env.evalInteger m.interval ≤ 0
  · rw [atPace_of_unusable h]
    rw [noteIntegers, note_note]
    exact hnote _
  · rw [atPace_of_pos (by omega) (by omega)]
    exact hbody _

theorem distance_cases {P : Recorder → Prop} (hnote : ∀ notices, P (r.note notices))
    (hbody : ∀ notices, P (body (paceIn r.env m) (r.note notices))) :
    P (atPace command m (overDistance command body) r) := by
  refine atPace_cases hnote fun notices => ?_
  unfold overDistance
  split
  · rw [note_note]
    exact hnote _
  · exact hbody notices

end Movement

open Recorder Movement

/-- What the statement at a site makes of a recorder, by what it may change. -/
inductive Footprint (site : Site) (r : Recorder) : Statement → Recorder → Prop
  | plain {s : Statement} {r' : Recorder} (h : Records r r') : Footprint site r s r'
  | cycle {m : Motion} {r' : Recorder} (h : Records r r') (ticks : Nat) :
      Footprint site r (.scrollBounce m) (r'.setImplicitPeriod ticks)
  | clip {m : Motion} {r' : Recorder} (h : Records r r') (t : Travel) :
      Footprint site r (.scrollClip m) (r'.setClip site t)
  | slide {m : Motion} {r' : Recorder} (h : Records r r') (t : Travel) :
      Footprint site r (.slide m) (r'.setSlide t)
  | wrap {m : Motion} {r' : Recorder} (h : Records r r') (ticks : Nat) :
      Footprint site r (.scrollLoop m) ((r'.finishScroll site).setImplicitPeriod ticks)
  | period {e : Expr} {r' : Recorder} (h : Records r r') (he : 0 < r.env.evalInteger e)
      (ticks : Nat) : Footprint site r (.period e) (r'.setExplicitPeriod ticks)
  | announcement {event : String} {r' : Recorder} (h : Records (r.announce event) r') :
      Footprint site r (.sync event) r'

namespace Footprint

variable {site : Site} {r : Recorder} {s : Statement}

/-- What a statement does to a recorder leaves its footprint. -/
theorem of_effect {f : Recorder → Recorder} (hf : s.effect? site = some f) (r : Recorder) :
    Footprint site r s (f r) := by
  cases s <;> cases hf
  case move m =>
    refine atPace_cases (fun notices => .plain (Records.note r notices)) fun notices => ?_
    split
    · exact .plain (Records.note r notices)
    · exact .plain (Records.trans (Records.note r notices) (Records.builds.stride _ _ _))
  case moveTo start finish step interval =>
    unfold moveTo
    dsimp only
    split
    · exact .plain (Records.trans (Records.note r _) (Records.note _ _))
    · exact .plain (Records.trans (Records.note r _) (Records.builds.way _ trivial trivial _ _))
  case pause duration => exact .plain ((Adds.note r _).trans (Adds.emitPause _ _ _)).same
  case resetPosition => exact .plain (Adds.emit r _).same
  case sync event => exact .announcement (Adds.emit _ _).same
  case waitFor event maxTicks =>
    exact .plain (((Adds.note r _).trans (Adds.emitPause _ _ _)).trans (Adds.emit _ _)).same
  case scrollClip m =>
    refine distance_cases (fun notices => .plain (Records.note r notices)) fun notices => ?_
    exact .clip (Records.trans (Records.note r notices)
      (Records.builds.cumulate _ Records.markTerminal (fun _ _ => trivial) _ _)) _
  case slide m =>
    refine distance_cases (fun notices => .plain (Records.note r notices)) fun notices => ?_
    exact .slide (Records.trans (Records.note r notices)
      (Records.builds.cumulate _ Records.markTerminal (fun _ _ => trivial) _ _)) _
  case scrollBounce m =>
    refine distance_cases (fun notices => .plain (Records.note r notices)) fun notices => ?_
    exact .cycle ((Adds.note r notices).trans (adds_rebound _ _)).same _
  case scrollLoop m =>
    unfold scrollLoop
    split
    · exact .plain (Records.refl r)
    · refine atPace_cases (fun notices => .plain (Records.note r notices)) fun notices => ?_
      unfold Movement.wrap
      dsimp only
      split
      · rw [note_note]
        exact .plain (Records.note r _)
      · exact .wrap (Records.trans (Records.note r notices) (Records.builds.stride _ _ _)) _
  case period e =>
    unfold declarePeriod
    dsimp only
    split
    · rename_i he
      exact .period (Records.note r _) he _
    · exact .plain (Records.trans (Records.note r _) (Records.note _ _))

/-! ### What a footprint leaves alone -/

variable {r' : Recorder}

theorem smoothing (h : Footprint site r s r') : r'.smoothing = r.smoothing := by
  cases h with
  | plain h => exact h.smoothing
  | cycle h => rw [setImplicitPeriod_same]; exact h.smoothing
  | clip h => exact h.smoothing
  | slide h => exact h.smoothing
  | wrap h => rw [setImplicitPeriod_same]; exact h.smoothing
  | period h => exact h.smoothing
  | announcement h => exact h.smoothing

/-- The memory of a clipped scroll belongs to its site. -/
theorem find?_clips {other : Site} (h : Footprint site r s r')
    (hs : ∀ m, s = .scrollClip m → site ≠ other) :
    Assoc.find? other r'.clips = Assoc.find? other r.clips := by
  cases h with
  | plain h => rw [h.clips]
  | cycle h => rw [setImplicitPeriod_same, h.clips]
  | @clip m r' h t =>
    rw [← h.clips]
    exact Assoc.find?_assign_ne t r'.clips (hs m rfl).symm
  | @slide m r' h t =>
    rw [← h.clips]
    rfl
  | wrap h =>
    rw [setImplicitPeriod_same, ← h.clips]
    rfl
  | @period e r' h =>
    rw [← h.clips]
    rfl
  | announcement h =>
    rw [h.clips]
    rfl

theorem slide_eq (h : Footprint site r s r') (hs : ∀ m, s ≠ .slide m) : r'.slide = r.slide := by
  cases h with
  | plain h => exact h.slide
  | cycle h => rw [setImplicitPeriod_same]; exact h.slide
  | clip h => exact h.slide
  | slide h => exact absurd rfl (hs _)
  | wrap h => rw [setImplicitPeriod_same]; exact h.slide
  | period h => exact h.slide
  | announcement h => exact h.slide

/-- A wrapping scroll may be finished at its own site only. -/
theorem mem_finishedScrolls {other : Site} (h : Footprint site r s r')
    (hs : ∀ m, s = .scrollLoop m → site ≠ other) :
    other ∈ r'.finishedScrolls ↔ other ∈ r.finishedScrolls := by
  cases h with
  | plain h => rw [h.finishedScrolls]
  | cycle h => rw [setImplicitPeriod_same, h.finishedScrolls]
  | @clip m r' h t =>
    rw [← h.finishedScrolls]
    rfl
  | @slide m r' h t =>
    rw [← h.finishedScrolls]
    rfl
  | @wrap m r' h ticks =>
    have hother : other ≠ site := (hs m rfl).symm
    rw [setImplicitPeriod_same, ← h.finishedScrolls]
    simp only [finishScroll, List.mem_cons, hother, false_or]
  | @period e r' h =>
    rw [← h.finishedScrolls]
    rfl
  | announcement h =>
    rw [h.finishedScrolls]
    rfl

/-- Only a PERIOD with a positive value declares one. -/
theorem explicitPeriod (h : Footprint site r s r')
    (hs : ∀ e, s = .period e → r.env.evalInteger e ≤ 0) :
    r'.explicitPeriod = r.explicitPeriod := by
  cases h with
  | plain h => exact h.explicitPeriod
  | cycle h => rw [setImplicitPeriod_same]; exact h.explicitPeriod
  | clip h => exact h.explicitPeriod
  | slide h => exact h.explicitPeriod
  | wrap h => rw [setImplicitPeriod_same]; exact h.explicitPeriod
  | period h he => exact absurd he (Int.not_lt.mpr (hs _ rfl))
  | announcement h => exact h.explicitPeriod

end Footprint
end Choreography
