import Choreography.Interpreter

/-! # Statements as scripts of recorder acts

Every movement is made of a few acts on the recorder, and which act comes next depends only on a
small part of what was recorded. What the acts keep, all movements keep, and two recorders that
look the same to a movement stay as close to each other as the acts keep them. -/
namespace Choreography
namespace Recorder

/-! ### Adding frames -/

/-- Frames are added at the end; nothing else is different but the mark of the cap and reports. -/
structure Adds (r r' : Recorder) : Prop where
  same : r' = { r with frames := r'.frames, capped := r'.capped, log := r'.log }
  grows : ∃ more, r'.frames = r.frames ++ more
  capped : r.capped = true → r'.capped = true

namespace Adds

theorem refl (r : Recorder) : Adds r r := ⟨rfl, ⟨#[], by simp⟩, id⟩

theorem trans {r₁ r₂ r₃ : Recorder} (h₁ : Adds r₁ r₂) (h₂ : Adds r₂ r₃) : Adds r₁ r₃ where
  same := by rw [h₂.same, h₁.same]
  grows := by
    obtain ⟨more₁, hmore₁⟩ := h₁.grows
    obtain ⟨more₂, hmore₂⟩ := h₂.grows
    exact ⟨more₁ ++ more₂, by rw [hmore₂, hmore₁, Array.append_assoc]⟩
  capped := h₂.capped ∘ h₁.capped

theorem push (r : Recorder) (f : Frame) : Adds r (r.push f).1 := by
  unfold Recorder.push
  split
  · split
    · exact refl r
    · exact ⟨rfl, ⟨#[], by simp [note]⟩, fun _ => rfl⟩
  · exact ⟨rfl, ⟨#[f], by simp⟩, id⟩

theorem pushAll (r : Recorder) (frames : List Frame) : Adds r (r.pushAll frames).1 := by
  induction frames generalizing r with
  | nil => exact refl r
  | cons f rest ih =>
    have hfirst := push r f
    simp only [Recorder.pushAll]
    split
    · rename_i r' h
      rw [h] at hfirst
      exact hfirst.trans (ih r')
    · rename_i r' h
      rwa [h] at hfirst

end Adds

/-- The frames that go before a frame. -/
def filler (r : Recorder) (f : Frame) : List Frame :=
  if r.smoothing then Smoothing.inserted r.frames.back? (r.label f) else []

theorem emit_eq (r : Recorder) (f : Frame) :
    r.emit f = match r.pushAll (r.filler f) with
      | (r', true) => r'.push (r.label f)
      | (r', false) => (r', false) := by
  unfold emit filler
  cases r.smoothing with
  | true => rfl
  | false => rfl

theorem pushAll_append (r : Recorder) (xs ys : List Frame) :
    r.pushAll (xs ++ ys) = match r.pushAll xs with
      | (r', true) => r'.pushAll ys
      | (r', false) => (r', false) := by
  induction xs generalizing r with
  | nil => rfl
  | cons f rest ih =>
    simp only [List.cons_append, pushAll]
    rcases r.push f with ⟨r', _ | _⟩
    · rfl
    · exact ih r'

/-- A frame is added like a list of frames that it ends. -/
theorem emit_eq_pushAll (r : Recorder) (f : Frame) :
    r.emit f = r.pushAll (r.filler f ++ [r.label f]) := by
  have hlast : ∀ r' : Recorder, r'.push (r.label f) = r'.pushAll [r.label f] := by
    intro r'
    simp only [pushAll]
    rcases r'.push (r.label f) with ⟨r'', _ | _⟩ <;> rfl
  rw [pushAll_append, emit_eq]
  rcases r.pushAll (r.filler f) with ⟨r', _ | _⟩
  · rfl
  · exact hlast r'

theorem Adds.emit (r : Recorder) (f : Frame) : Adds r (r.emit f).1 := by
  rw [emit_eq_pushAll]
  exact Adds.pushAll r _

/-- A change that adding frames neither sees nor takes back. -/
structure Unseen (φ : Recorder → Recorder) : Prop where
  push : ∀ r f, (φ r).push f = (φ (r.push f).1, (r.push f).2)
  added : ∀ r f, (φ r).filler f ++ [(φ r).label f] = r.filler f ++ [r.label f]

theorem Unseen.pushAll {φ : Recorder → Recorder} (h : Unseen φ) (r : Recorder)
    (frames : List Frame) : (φ r).pushAll frames = (φ (r.pushAll frames).1, (r.pushAll frames).2) := by
  induction frames generalizing r with
  | nil => rfl
  | cons f rest ih =>
    simp only [Recorder.pushAll, h.push]
    rcases r.push f with ⟨r', _ | _⟩
    · rfl
    · exact ih r'

theorem Unseen.emit {φ : Recorder → Recorder} (h : Unseen φ) (r : Recorder) (f : Frame) :
    (φ r).emit f = (φ (r.emit f).1, (r.emit f).2) := by
  rw [emit_eq_pushAll, emit_eq_pushAll, h.added, h.pushAll]

theorem eq_of_push {r r' : Recorder} {f : Frame} (h : r.push f = (r', true)) :
    r' = { r with frames := r.frames.push f } := by
  unfold push at h
  split at h
  · cases h
  · cases h
    rfl

theorem full_of_push {r r' : Recorder} {f : Frame} (h : r.push f = (r', false)) :
    r'.maxPositions ≤ r'.frames.size ∧ r'.capped = true := by
  unfold push at h
  split at h
  · rename_i hfull
    cases h
    split
    · rename_i hcapped
      exact ⟨hfull, hcapped⟩
    · exact ⟨hfull, rfl⟩
  · cases h

theorem eq_of_pushAll {r r' : Recorder} {frames : List Frame}
    (h : r.pushAll frames = (r', true)) :
    r' = { r with frames := frames.foldl Array.push r.frames } := by
  induction frames generalizing r with
  | nil =>
    cases h
    rfl
  | cons f rest ih =>
    simp only [pushAll] at h
    split at h
    · rename_i r₁ hfirst
      rw [ih h, eq_of_push hfirst]
      rfl
    · cases h

theorem full_of_pushAll {r r' : Recorder} {frames : List Frame}
    (h : r.pushAll frames = (r', false)) : r'.maxPositions ≤ r'.frames.size ∧ r'.capped = true := by
  induction frames generalizing r with
  | nil => cases h
  | cons f rest ih =>
    simp only [pushAll] at h
    split at h
    · exact ih h
    · rename_i r₁ hfirst
      cases h
      exact full_of_push hfirst

theorem pushAll_of_le {r : Recorder} {frames : List Frame}
    (h : r.frames.size + frames.length ≤ r.maxPositions) :
    r.pushAll frames = ({ r with frames := frames.foldl Array.push r.frames }, true) := by
  induction frames generalizing r with
  | nil => rfl
  | cons f rest ih =>
    simp only [List.length_cons] at h
    have hroom : ¬ r.maxPositions ≤ r.frames.size := by omega
    simp only [pushAll, push, if_neg hroom]
    exact ih (by simp only [Array.size_push]; omega)

/-- Of the frames that are added in a row the first ones are kept, as many as there is room for. -/
theorem toList_pushAll (r : Recorder) (frames : List Frame) :
    (r.pushAll frames).1.frames.toList =
      r.frames.toList ++ frames.take (r.maxPositions - r.frames.size) := by
  induction frames generalizing r with
  | nil => simp [pushAll]
  | cons f rest ih =>
    simp only [pushAll, push]
    by_cases hfull : r.maxPositions ≤ r.frames.size
    · have hframes : (if r.capped then r else
          { r with capped := true }.note [.capReached r.maxPositions]).frames = r.frames := by
        split <;> rfl
      simp [if_pos hfull, Nat.sub_eq_zero_of_le hfull, hframes]
    · obtain ⟨room, hroom⟩ : ∃ room, r.maxPositions - r.frames.size = room + 1 :=
        ⟨r.maxPositions - r.frames.size - 1, by omega⟩
      have hrest : r.maxPositions - (r.frames.size + 1) = room := by omega
      simp [if_neg hfull, ih, hroom, hrest]

theorem toList_emit (r : Recorder) (f : Frame) :
    (r.emit f).1.frames.toList = r.frames.toList ++
      (r.filler f ++ [r.label f]).take (r.maxPositions - r.frames.size) := by
  rw [emit_eq_pushAll, toList_pushAll]

/-- A frame that is kept comes right after the frames that smoothing puts before it. -/
theorem eq_of_emit {r r' : Recorder} {f : Frame} (h : r.emit f = (r', true)) :
    r' = { r with frames := ((r.filler f).foldl Array.push r.frames).push (r.label f) } := by
  rw [emit_eq_pushAll] at h
  rw [eq_of_pushAll h, List.foldl_append]
  rfl

/-- A frame is dropped only at the cap. -/
theorem full_of_emit {r r' : Recorder} {f : Frame} (h : r.emit f = (r', false)) :
    r'.maxPositions ≤ r'.frames.size ∧ r'.capped = true := by
  rw [emit_eq_pushAll] at h
  exact full_of_pushAll h

/-! ### Arrivals -/

theorem modify_last_push (source : Array Frame) (f : Frame) (g : Frame → Frame) :
    (source.push f).modify ((source.push f).size - 1) g = source.push (g f) := by
  apply Array.ext_getElem?
  intro i
  grind

theorem label_asTerminal (r : Recorder) (f : Frame) :
    r.label f.asTerminal = (r.label f).asTerminal := by
  have hsegment : f.asTerminal.segment = f.segment := rfl
  unfold label
  rw [hsegment]
  split <;> rfl

theorem filler_asTerminal (r : Recorder) (f : Frame) : r.filler f.asTerminal = r.filler f := by
  unfold filler
  rw [label_asTerminal]
  cases r.frames.back? <;> rfl

def landed : Recorder × Bool → Recorder × Bool
  | (r, true) => (r.markTerminal, true)
  | (r, false) => (r, false)

theorem push_asTerminal (r : Recorder) (f : Frame) : r.push f.asTerminal = landed (r.push f) := by
  unfold push
  split
  · rfl
  · simp only [landed, markTerminal, modify_last_push]

/-- To mark a frame that was just added is to add it with the mark. -/
theorem emit_asTerminal (r : Recorder) (f : Frame) : r.emit f.asTerminal = landed (r.emit f) := by
  rw [emit_eq, emit_eq, filler_asTerminal, label_asTerminal]
  split
  · exact push_asTerminal _ _
  · rfl

theorem emitHeld_succ (r : Recorder) (f : Frame) (n : Nat) :
    r.emitHeld f (n + 1) = match r.emitHeld f n with
      | (r', true) => r'.emit f
      | (r', false) => (r', false) := by
  induction n generalizing r with
  | zero =>
    simp only [emitHeld]
    rcases r.emit f with ⟨r', _ | _⟩ <;> rfl
  | succ n ih =>
    have hfirst : ∀ k, r.emitHeld f (k + 1) = match r.emit f with
        | (r', true) => r'.emitHeld f k
        | (r', false) => (r', false) := fun _ => rfl
    rw [hfirst (n + 1), hfirst n]
    rcases r.emit f with ⟨r', _ | _⟩
    · rfl
    · exact ih r'

/-- Holds a frame and then adds it as an arrival. -/
def land (f : Frame) (n : Nat) (r : Recorder) : Recorder × Bool :=
  match r.emitHeld f n with
  | (r, true) => r.emit f.asTerminal
  | (r, false) => (r, false)

theorem landed_emitHeld (r : Recorder) (f : Frame) (n : Nat) :
    landed (r.emitHeld f (n + 1)) = land f n r := by
  rw [emitHeld_succ, land]
  rcases r.emitHeld f n with ⟨r', _ | _⟩
  · rfl
  · exact (emit_asTerminal r' f).symm

/-! ### Scripts -/

structure View where
  env : Env
  last : Option (Int × Int)
  clips : List (Site × Travel)
  slide : Option Travel
  finishedScrolls : List Site

def view (r : Recorder) : View :=
  ⟨r.env, r.frames.back?.map Frame.coords, r.clips, r.slide, r.finishedScrolls⟩

inductive Act where
  | note (notices : List Notice)
  | emit (f : Frame)
  | setClip (site : Site) (t : Travel)
  | setSlide (t : Travel)
  | finishScroll (site : Site)
  | declarePeriod (ticks : Nat)
  | endCycle

def Act.perform : Act → Recorder → Recorder × Bool
  | .note notices, r => (r.note notices, true)
  | .emit f, r => r.emit f
  | .setClip site t, r => (r.setClip site t, true)
  | .setSlide t, r => (r.setSlide t, true)
  | .finishScroll site, r => (r.finishScroll site, true)
  | .declarePeriod ticks, r => (r.setExplicitPeriod ticks, true)
  | .endCycle, r => (r.setImplicitPeriod r.frames.size, true)

def Act.Unnamed : Act → Prop
  | .emit f => f.segment = none
  | _ => True

/-- A computation that only performs acts, none of which names a frame, and only reads views and how
long to wait for the events that it may ask about. -/
inductive Scripted (asked : String → Prop) : {α : Type} → (Recorder → Recorder × α) → Prop
  | pure {α : Type} (a : α) : Scripted asked fun r => (r, a)
  | act (a : Act) (ha : a.Unnamed) : Scripted asked a.perform
  | bind {α β : Type} {f : Recorder → Recorder × α} {g : α → Recorder → Recorder × β}
      (hf : Scripted asked f) (hg : ∀ a, Scripted asked (g a)) :
      Scripted asked fun r => g (f r).2 (f r).1
  | look {α : Type} {f : View → Recorder → Recorder × α} (hf : ∀ v, Scripted asked (f v)) :
      Scripted asked fun r => f r.view r
  | ask {α : Type} {f : Nat → Recorder → Recorder × α} {event : String} (hevent : asked event)
      (most : Nat) (hf : ∀ n, Scripted asked (f n)) :
      Scripted asked fun r => f (Movement.waitLength r event most) r

variable {asked : String → Prop}

theorem Scripted.congr {α : Type} {f g : Recorder → Recorder × α} (hf : Scripted asked f)
    (h : ∀ r, g r = f r) : Scripted asked g := by
  have heq : g = f := funext h
  rwa [heq]

/-- What every act keeps that names no frame, a scripted computation keeps. -/
theorem Scripted.invariant_of_unnamed {P : Recorder → Prop}
    (hP : ∀ (a : Act) (r : Recorder), a.Unnamed → P r → P (a.perform r).1) {α : Type}
    {f : Recorder → Recorder × α} (hf : Scripted asked f) {r : Recorder} (hr : P r) : P (f r).1 := by
  induction hf generalizing r with
  | pure a => exact hr
  | act a ha => exact hP a r ha hr
  | bind hf hg ihf ihg => exact ihg _ (ihf hr)
  | look hf ih => exact ih _ hr
  | ask _ _ hf ih => exact ih _ hr

/-- What every act keeps, a scripted computation keeps. -/
theorem Scripted.invariant {P : Recorder → Prop}
    (hP : ∀ (a : Act) (r : Recorder), P r → P (a.perform r).1) {α : Type}
    {f : Recorder → Recorder × α} (hf : Scripted asked f) {r : Recorder} (hr : P r) : P (f r).1 :=
  hf.invariant_of_unnamed (fun a r _ => hP a r) hr

/-- Two recorders that acts keep close stay close, and the computation gives the same on both,
unless they are lost for good. -/
theorem Scripted.couples {R L : Recorder → Recorder → Prop}
    (hleft : ∀ (a : Act) (r g : Recorder), L r g → L (a.perform r).1 g)
    (hright : ∀ (a : Act) (r g : Recorder), L r g → L r (a.perform g).1)
    (hview : ∀ r g : Recorder, R r g → r.view = g.view)
    (hwait : ∀ (event : String) (r g : Recorder), asked event → R r g →
      Movement.waitLength r event = Movement.waitLength g event)
    (hact : ∀ (a : Act) (r g : Recorder), R r g →
      L (a.perform r).1 (a.perform g).1 ∨
        (R (a.perform r).1 (a.perform g).1 ∧ (a.perform r).2 = (a.perform g).2))
    {α : Type} {f : Recorder → Recorder × α} (hf : Scripted asked f) {r g : Recorder} (h : R r g) :
    L (f r).1 (f g).1 ∨ (R (f r).1 (f g).1 ∧ (f r).2 = (f g).2) := by
  induction hf generalizing r g with
  | pure a => exact .inr ⟨h, rfl⟩
  | act a _ => exact hact a r g h
  | @bind _ _ first rest hfirst hrest ihfirst ihrest =>
    rcases ihfirst h with hlost | ⟨hR, heq⟩
    · have hl := (hrest (first r).2).invariant (P := (L · (first g).1))
        (fun a r' => hleft a r' _) hlost
      exact .inl ((hrest (first g).2).invariant (fun a g' => hright a _ g') hl)
    · simp only [heq]
      exact ihrest _ hR
  | look hf ih =>
    have hv := hview r g h
    simp only [hv]
    exact ih _ h
  | ask hevent most hf ih =>
    have hw := hwait _ r g hevent h
    simp only [hw]
    exact ih _ h

/-- What follows if all frames were kept, and what follows if not. -/
theorem Scripted.branch {α : Type} {f : Recorder → Recorder × Bool} {g h : Recorder → Recorder × α}
    (hf : Scripted asked f) (hg : Scripted asked g) (hh : Scripted asked h) :
    Scripted asked fun r => match f r with
      | (r, true) => g r
      | (r, false) => h r := by
  have hchoice : ∀ kept : Bool, Scripted asked fun r => if kept then g r else h r := by
    intro kept
    cases kept with
    | true => exact hg
    | false => exact hh
  refine (hf.bind hchoice).congr fun r => ?_
  rcases f r with ⟨r', _ | _⟩ <;> rfl

theorem Scripted.ite {α : Type} {f g : Recorder → Recorder × α} (c : Prop) [Decidable c]
    (hf : Scripted asked f) (hg : Scripted asked g) :
    Scripted asked fun r => if c then f r else g r := by
  by_cases hc : c
  · simpa only [hc, if_true] using hf
  · simpa only [hc, if_false] using hg

def Composed (asked : String → Prop) (f : Recorder → Recorder) : Prop :=
  Scripted asked fun r => (f r, ())

theorem Scripted.state {α : Type} {f : Recorder → Recorder × α} (hf : Scripted asked f) :
    Composed asked fun r => (f r).1 := hf.bind fun _ => .pure ()

namespace Composed

theorem nothing : Composed asked fun r => r := .pure ()

theorem act (a : Act) (ha : a.Unnamed) : Composed asked fun r => (a.perform r).1 :=
  (Scripted.act a ha).state

theorem giving {α : Type} {f : Recorder → Recorder} (hf : Composed asked f) (a : α) :
    Scripted asked fun r => (f r, a) := Scripted.bind hf fun _ => .pure a

theorem comp {f g : Recorder → Recorder} (hf : Composed asked f) (hg : Composed asked g) :
    Composed asked fun r => g (f r) :=
  Scripted.bind (g := fun _ r => (g r, ())) hf fun _ => hg

theorem bind {α : Type} {f : Recorder → Recorder × α} {g : α → Recorder → Recorder}
    (hf : Scripted asked f) (hg : ∀ a, Composed asked (g a)) :
    Composed asked fun r => g (f r).2 (f r).1 :=
  Scripted.bind hf hg

theorem look {f : View → Recorder → Recorder} (hf : ∀ v, Composed asked (f v)) :
    Composed asked fun r => f r.view r :=
  Scripted.look (f := fun v r => (f v r, ())) hf

theorem ask {f : Nat → Recorder → Recorder} {event : String} (hevent : asked event) (most : Nat)
    (hf : ∀ n, Composed asked (f n)) :
    Composed asked fun r => f (Movement.waitLength r event most) r :=
  Scripted.ask (f := fun n r => (f n r, ())) hevent most hf

theorem ite {f g : Recorder → Recorder} (c : Prop) [Decidable c] (hf : Composed asked f)
    (hg : Composed asked g) : Composed asked fun r => if c then f r else g r := by
  by_cases hc : c
  · simpa only [hc, if_true] using hf
  · simpa only [hc, if_false] using hg

theorem branch {f : Recorder → Recorder × Bool} {g h : Recorder → Recorder} (hf : Scripted asked f)
    (hg : Composed asked g) (hh : Composed asked h) :
    Composed asked fun r => match f r with
      | (r, true) => g r
      | (r, false) => h r := by
  refine (Scripted.branch hf hg hh).congr fun r => ?_
  show (match f r with | (r, true) => g r | (r, false) => h r, ()) = _
  rcases f r with ⟨r', _ | _⟩ <;> rfl

theorem invariant {P : Recorder → Prop} (hP : ∀ (a : Act) (r : Recorder), P r → P (a.perform r).1)
    {f : Recorder → Recorder} (hf : Composed asked f) {r : Recorder} (hr : P r) : P (f r) :=
  Scripted.invariant hP hf hr

end Composed

/-! ### Parts of movements -/

theorem composed_noteIntegers (es : List Expr) : Composed asked fun r => r.noteIntegers es :=
  .look fun v => .act (.note (es.flatMap v.env.evalIntegerFaults)) trivial

theorem scripted_emitHeld {f : Frame} (hf : f.segment = none) (n : Nat) :
    Scripted asked fun r => r.emitHeld f n := by
  induction n with
  | zero => exact .pure true
  | succ n ih => exact .branch (.act (.emit f) hf) ih (.pure false)

theorem scripted_land {f : Frame} (hf : f.segment = none) (n : Nat) : Scripted asked (land f n) :=
  .branch (scripted_emitHeld hf n) (.act (.emit f.asTerminal) hf) (.pure false)

theorem composed_emitPause (place : Frame) (n : Nat) :
    Composed asked fun r => r.emitPause place n := by
  induction n with
  | zero => exact .nothing
  | succ n ih => exact .branch (.act (.emit _) rfl) ih .nothing

end Recorder

namespace Movement
open Recorder

theorem scripted_trace {point : Nat → Frame} (hpoint : ∀ i, (point i).segment = none)
    (interval i n : Nat) : Scripted asked fun r => trace point interval r i n := by
  induction n generalizing i with
  | zero => exact .pure i
  | succ n ih => exact .branch (scripted_emitHeld (hpoint i) interval) (ih (i + 1)) (.pure i)

theorem scripted_goOn {p : Pace} {hold : Int → Recorder → Recorder × Bool}
    (hhold : ∀ offset, Scripted asked (hold offset)) (moved : Int) (n : Nat) :
    Scripted asked fun r => goOn p hold r moved n := by
  induction n generalizing moved with
  | zero => exact .pure moved
  | succ n ih => exact .ite _ (.branch (hhold _) (ih _) (.pure moved)) (.pure moved)

theorem scripted_walk (origin : Frame) (p : Pace) (moved : Int) :
    Scripted asked fun r => walk r origin p moved :=
  scripted_goOn (fun _ => scripted_emitHeld rfl p.interval) moved stepBound

theorem composed_stride (p : Pace) (count : Nat) : Composed asked (stride p count) := by
  have htrace : ∀ v : View, Composed asked fun r =>
      (trace (fun i : Nat => along (.plain v.env.x v.env.y) p.direction (wrapSigned 64 (i * p.step)))
        p.interval r 1 count).1 := by
    intro v
    exact (scripted_trace (fun _ => rfl) p.interval 1 count).state
  exact .look htrace

/-- Only arguments with a positive step and a positive interval move anything. -/
theorem composed_atPace (command : String) (m : Motion) {body : Pace → Recorder → Recorder}
    (hbody : ∀ p : Pace, 0 < p.step → 0 < p.interval → Composed asked (body p)) :
    Composed asked (atPace command m body) := by
  have hfirst : Composed asked fun r => r.noteIntegers [m.step, m.interval] :=
    composed_noteIntegers _
  have hlast := hfirst.comp (composed_noteIntegers [m.distance, m.gap, m.pauseAtEnds])
  have hchoice : ∀ v : View, Composed asked fun r =>
      if v.env.evalInteger m.step ≤ 0 ∨ v.env.evalInteger m.interval ≤ 0 then
        (r.noteIntegers [m.step, m.interval]).note
          [.unusableStep command (v.env.evalInteger m.step) (v.env.evalInteger m.interval)]
      else body (paceIn v.env m)
        ((r.noteIntegers [m.step, m.interval]).noteIntegers [m.distance, m.gap, m.pauseAtEnds]) := by
    intro v
    by_cases hv : v.env.evalInteger m.step ≤ 0 ∨ v.env.evalInteger m.interval ≤ 0
    · simp only [if_pos hv]
      exact hfirst.comp (.act (.note _) trivial)
    · simp only [if_neg hv]
      have hinterval : 0 < (v.env.evalInteger m.interval).toNat := by omega
      exact hlast.comp (hbody _ (by simp only [paceIn]; omega) hinterval)
  refine (Composed.look hchoice).congr fun r => ?_
  by_cases hr : r.env.evalInteger m.step ≤ 0 ∨ r.env.evalInteger m.interval ≤ 0
  · simp only [atPace, pace, if_pos hr]
    exact congrArg (·, ()) (if_pos hr).symm
  · simp only [atPace, pace, if_neg hr]
    exact congrArg (·, ()) (if_neg hr).symm

theorem composed_overDistance (command : String) {body : Pace → Recorder → Recorder} {p : Pace}
    (hbody : Composed asked (body p)) : Composed asked (overDistance command body p) :=
  .ite _ (.act (.note _) trivial) hbody

/-! ### Movements -/

theorem composed_move (m : Motion) : Composed asked (move m) :=
  composed_atPace _ _ fun p _ _ => .ite _ .nothing (composed_stride p _)

theorem scripted_jumpTo {place : Frame} (hplace : place.segment = none) :
    Scripted asked (jumpTo place) :=
  .look fun v => .ite ((Frame.plain v.env.x v.env.y).samePlace place) (.pure true)
    (.act (.emit place) hplace)

theorem composed_line (first : Frame) {last : Frame} (hlast : last.segment = none)
    (stride hold : Nat) : Composed asked (line first last stride hold) :=
  .ite _ (.ite _ .nothing (scripted_emitHeld hlast hold).state)
    (scripted_trace (fun _ => rfl) hold 1 _).state

theorem composed_way {first last : Frame} (hfirst : first.segment = none)
    (hlast : last.segment = none) (stride hold : Nat) : Composed asked (way first last stride hold) :=
  .branch (scripted_jumpTo hfirst) (composed_line first hlast stride hold) .nothing

theorem composed_moveTo (start finish : PointExpr) (step interval : Expr) :
    Composed asked (moveTo start finish step interval) := by
  have hchoice : ∀ v : View, Composed asked fun r =>
      if v.env.evalInteger step ≤ 0 ∨ v.env.evalInteger interval ≤ 0 then
        r.note [.unusableStep "move_to" (v.env.evalInteger step) (v.env.evalInteger interval)]
      else way (.plain (v.env.evalPixels start.x) (v.env.evalPixels start.y))
        (.plain (v.env.evalPixels finish.x) (v.env.evalPixels finish.y))
        (v.env.evalInteger step).toNat (v.env.evalInteger interval).toNat r :=
    fun v => .ite _ (.act (.note _) trivial) (composed_way rfl rfl _ _)
  exact (composed_noteIntegers _).comp (.look hchoice)

theorem composed_pause (duration : Expr) : Composed asked (pause duration) :=
  .look fun v => (composed_noteIntegers [duration]).comp
    (composed_emitPause (.plain v.env.x v.env.y) (v.env.evalInteger duration).toNat)

theorem composed_resetPosition : Composed asked resetPosition := .act (.emit _) rfl

/-- A wait asks about its own event only. -/
theorem composed_waitFor {event : String} (hevent : asked event) (maxTicks : Expr) :
    Composed asked (waitFor event maxTicks) := by
  have hpause : ∀ (v : View) (n : Nat), Composed asked fun r =>
      ((r.emitPause (.plain v.env.x v.env.y) n).emit (.plain v.env.x v.env.y)).1 :=
    fun v n => (composed_emitPause _ n).comp (.act (.emit (.plain v.env.x v.env.y)) rfl)
  have hwait : ∀ v : View, Composed asked fun r =>
      ((r.emitPause (.plain v.env.x v.env.y)
        (waitLength r event (v.env.evalInteger maxTicks).toNat)).emit
          (.plain v.env.x v.env.y)).1 :=
    fun v => .ask hevent _ (hpause v)
  exact (composed_noteIntegers [maxTicks]).comp (.look hwait)

theorem composed_declarePeriod (ticks : Expr) : Composed asked (declarePeriod ticks) := by
  have hchoice : ∀ v : View, Composed asked fun r =>
      if 0 < v.env.evalInteger ticks then r.setExplicitPeriod (v.env.evalInteger ticks).toNat
      else r.note [.unusablePeriod (v.env.evalInteger ticks)] :=
    fun v => .ite _ (.act (.declarePeriod _) trivial) (.act (.note _) trivial)
  exact (composed_noteIntegers [ticks]).comp (.look hchoice)

/-- Holds the point at an offset; where that is the distance, the last frame is an arrival. -/
def approach (origin : Frame) (direction : Direction) (distance : Int) (hold : Nat) (offset : Int)
    (r : Recorder) : Recorder × Bool :=
  if offset = distance then land (along origin direction offset) hold r
  else r.emitHeld (along origin direction offset) (hold + 1)

theorem goOn_of_le {p : Pace} {moved : Int} (h : p.distance ≤ moved)
    (hold : Int → Recorder → Recorder × Bool) (r : Recorder) (n : Nat) :
    goOn p hold r moved n = (r, moved) := by
  cases n with
  | zero => rfl
  | succ n => rw [goOn, if_neg (Int.not_lt.mpr h)]

/-- To mark the last frame when the distance is reached is to add it as an arrival. -/
theorem mark_goOn (origin : Frame) (direction : Direction) {p : Pace} (hold : Nat) {moved : Int}
    (hmoved : moved < p.distance) (r : Recorder) (n : Nat) :
    (match goOn p (fun o r => r.emitHeld (along origin direction o) (hold + 1)) r moved n with
      | (r', reached) => (if p.distance ≤ reached then r'.markTerminal else r', reached)) =
      goOn p (approach origin direction p.distance hold) r moved n := by
  induction n generalizing r moved with
  | zero => exact congrArg (·, moved) (if_neg (Int.not_le.mpr hmoved))
  | succ n ih =>
    simp only [goOn, if_pos hmoved]
    have hle : p.next moved ≤ p.distance := Int.min_le_right _ _
    by_cases hlast : p.next moved = p.distance
    · have hland := landed_emitHeld r (along origin direction (p.next moved)) hold
      have hreached : p.distance ≤ p.next moved := Int.le_of_eq hlast.symm
      simp only [approach, if_pos hlast, ← hland, goOn_of_le hreached]
      rcases r.emitHeld (along origin direction (p.next moved)) (hold + 1) with ⟨r', _ | _⟩
      · simp only [landed, if_neg (Int.not_le.mpr hmoved)]
      · simp only [landed, if_pos hreached]
    · have hnext : p.next moved < p.distance := by omega
      simp only [approach, if_neg hlast]
      rcases r.emitHeld (along origin direction (p.next moved)) (hold + 1) with ⟨r', _ | _⟩
      · simp only [if_neg (Int.not_le.mpr hmoved)]
      · exact ih hnext r'

theorem scripted_approach (origin : Frame) (direction : Direction) (distance : Int) (hold : Nat)
    (offset : Int) : Scripted asked (approach origin direction distance hold offset) :=
  .ite _ (scripted_land rfl hold) (scripted_emitHeld rfl (hold + 1))

/-- A movement goes on by adding its frames, the last one as an arrival. -/
theorem proceed_eq {t : Travel} {p : Pace} {hold : Nat} (hhold : p.interval = hold + 1)
    (hmoved : t.moved < p.distance) (r : Recorder) :
    proceed t p r =
      match goOn { p with direction := t.direction }
          (approach t.origin t.direction p.distance hold) r t.moved stepBound with
      | (r', moved) => (r', { t with moved := clampSigned 32 moved }) := by
  rw [proceed, ← mark_goOn t.origin t.direction hold (p := { p with direction := t.direction })
    hmoved, walk]
  simp only [hhold]

theorem scripted_proceed {t : Travel} {p : Pace} (hinterval : 0 < p.interval)
    (hmoved : t.moved < p.distance) : Scripted asked (proceed t p) := by
  obtain ⟨hold, hhold⟩ : ∃ hold, p.interval = hold + 1 := ⟨p.interval - 1, by omega⟩
  have hway : Scripted asked fun r => goOn { p with direction := t.direction }
      (approach t.origin t.direction p.distance hold) r t.moved stepBound :=
    scripted_goOn (scripted_approach _ _ _ hold) _ _
  exact (hway.bind fun moved => .pure { t with moved := clampSigned 32 moved }).congr
    (proceed_eq hhold hmoved)

theorem isAt_eq (r : Recorder) (place : Frame) :
    isAt r place = (r.view.last.map (· == place.coords)).getD false := by
  simp only [isAt, view, Option.map_map]
  rfl

theorem composed_settle (t : Travel) (p : Pace) : Composed asked (settle t p) := by
  have hchoice : ∀ v : View, Composed asked fun r =>
      if (v.last.map (· == (along t.origin t.direction p.distance).coords)).getD false then r
      else (r.emit (along t.origin t.direction p.distance).asTerminal).1 :=
    fun v => .ite _ .nothing (.act (.emit _) rfl)
  refine (Composed.look hchoice).congr fun r => ?_
  simp only [settle, isAt_eq]

theorem scripted_cumulate (t : Travel) {p : Pace} (hinterval : 0 < p.interval) :
    Scripted asked (cumulate t p) := by
  have hcovered : Scripted asked fun r =>
      if t.settled then (r, t) else (settle t p r, { t with settled := true }) :=
    .ite _ (.pure t) ((composed_settle t p).giving _)
  unfold cumulate
  by_cases hmoved : t.moved < p.distance
  · simpa only [if_pos hmoved] using scripted_proceed hinterval hmoved
  · simpa only [if_neg hmoved] using hcovered

theorem composed_scrollClip (site : Site) (m : Motion) : Composed asked (scrollClip site m) := by
  refine composed_atPace _ _ fun p _ hinterval => composed_overDistance _ ?_
  let travel (v : View) : Travel :=
    (Assoc.find? site v.clips).getD ⟨.plain v.env.x v.env.y, p.direction, 0, false⟩
  have hclip : ∀ v : View, Composed asked fun r =>
      (cumulate (travel v) p r).1.setClip site (cumulate (travel v) p r).2 :=
    fun v => .bind (scripted_cumulate _ hinterval) fun t => .act (.setClip site t) trivial
  exact .look hclip

theorem composed_slide (m : Motion) : Composed asked (slide m) := by
  refine composed_atPace _ _ fun p _ hinterval => composed_overDistance _ ?_
  let travel (v : View) : Travel :=
    (v.slide.filter (·.direction == p.direction)).getD
      ⟨.plain v.env.x v.env.y, p.direction, 0, false⟩
  have hslide : ∀ v : View, Composed asked fun r =>
      (cumulate (travel v) p r).1.setSlide (cumulate (travel v) p r).2 :=
    fun v => .bind (scripted_cumulate _ hinterval) fun t => .act (.setSlide t) trivial
  exact .look hslide

theorem composed_wrap (site : Site) (p : Pace) : Composed asked (wrap site p) := by
  have hcycle : ∀ n : Nat, Composed asked fun r =>
      let r := (stride p n r).finishScroll site
      r.setImplicitPeriod r.frames.size :=
    fun n => ((composed_stride p n).comp (.act (.finishScroll site) trivial)).comp
      (.act .endCycle trivial)
  have hchoice : ∀ v : View, Composed asked fun r =>
      let size := if p.direction.isHorizontal then v.env.width else v.env.height
      let unit := wrapSigned 64 (size + p.gap)
      if unit ≤ 0 then r.note [.unusableScrollUnit size p.gap]
      else
        let r := (stride p (unit.toNat / commonDivisor p.step.toNat unit.toNat) r).finishScroll site
        r.setImplicitPeriod r.frames.size :=
    fun v => .ite _ (.act (.note _) trivial) (hcycle _)
  exact .look hchoice

theorem composed_scrollLoop (site : Site) (m : Motion) : Composed asked (scrollLoop site m) := by
  have hchoice : ∀ v : View, Composed asked fun r =>
      if v.finishedScrolls.contains site then r else atPace "scroll_loop" m (wrap site) r :=
    fun v => .ite _ .nothing (composed_atPace _ _ fun p _ _ => composed_wrap site p)
  exact .look hchoice

theorem composed_arrive {origin : Frame} (horigin : origin.segment = none) (p : Pace) :
    Composed asked (arrive origin p) := by
  have hchoice : ∀ v : View, Composed asked fun r =>
      if origin.coords = (0, 0) ∧
          !(v.last.map (· == (along origin p.direction 1).coords)).getD false then
        (r.emit (along origin p.direction 1)).1
      else r :=
    fun v => .ite _ (.act (.emit _) rfl) .nothing
  have hheld : Composed asked fun r => (r.emitHeld origin p.interval).1 :=
    (scripted_emitHeld horigin p.interval).state
  refine ((Composed.look hchoice).comp hheld).congr fun r => ?_
  simp only [arrive, isAt_eq]

theorem composed_comeBack {origin : Frame} (horigin : origin.segment = none) (boundary : Frame)
    (p : Pace) : Composed asked (comeBack origin boundary p) := by
  have hhold : ∀ offset : Int, Scripted asked fun r =>
      if offset = p.distance then (arrive origin p r, true)
      else r.emitHeld (along boundary p.direction.opposite offset) p.interval :=
    fun _ => .ite _ ((composed_arrive horigin p).giving true) (scripted_emitHeld rfl p.interval)
  exact (scripted_goOn hhold 0 stepBound).state

theorem composed_bounce (p : Pace) : Composed asked (bounce p) := by
  have hturns : ∀ origin boundary : Frame, origin.segment = none → boundary.segment = none →
      Composed asked fun r =>
        let r := (walk r origin p 0).1
        let r := r.emitPause boundary p.pauseAtEnds
        let r := (r.emit boundary).1
        let r := comeBack origin boundary p r
        let r := r.emitPause origin p.pauseAtEnds
        r.setImplicitPeriod r.frames.size := by
    intro origin boundary horigin hboundary
    have hout : Composed asked fun r => (walk r origin p 0).1.emitPause boundary p.pauseAtEnds :=
      (scripted_walk origin p 0).state.comp (composed_emitPause boundary p.pauseAtEnds)
    have hback := (hout.comp (.act (.emit boundary) hboundary)).comp
      (composed_comeBack horigin boundary p)
    exact (hback.comp (composed_emitPause origin p.pauseAtEnds)).comp (.act .endCycle trivial)
  exact .look fun v => hturns (.plain v.env.x v.env.y)
    (along (.plain v.env.x v.env.y) p.direction p.distance) rfl rfl

theorem composed_scrollBounce (m : Motion) : Composed asked (scrollBounce m) :=
  composed_atPace _ _ fun p _ _ => composed_overDistance _ (composed_bounce p)

end Movement

def Statement.effect? (site : Site) : Statement → Option (Recorder → Recorder)
  | .move motion => some (Movement.move motion)
  | .moveTo start finish step interval => some (Movement.moveTo start finish step interval)
  | .pause duration => some (Movement.pause duration)
  | .resetPosition => some Movement.resetPosition
  | .sync event => some (Movement.sync event)
  | .waitFor event maxTicks => some (Movement.waitFor event maxTicks)
  | .scrollClip motion => some (Movement.scrollClip site motion)
  | .scrollLoop motion => some (Movement.scrollLoop site motion)
  | .scrollBounce motion => some (Movement.scrollBounce motion)
  | .slide motion => some (Movement.slide motion)
  | .period ticks => some (Movement.declarePeriod ticks)
  | _ => none

def Statement.awaited : Statement → List String
  | .waitFor event _ => [event]
  | _ => []

/-- Such a statement is the announcement of an event or a composition of acts. -/
theorem Statement.composed_of_effect {site : Site} {s : Statement} {f : Recorder → Recorder}
    (h : s.effect? site = some f) :
    (∃ event, s = .sync event ∧ f = Movement.sync event) ∨
      Recorder.Composed (· ∈ s.awaited) f := by
  cases s <;> cases h
  case sync event => exact .inl ⟨event, rfl, rfl⟩
  all_goals right
  case move => exact Movement.composed_move _
  case moveTo => exact Movement.composed_moveTo _ _ _ _
  case pause => exact Movement.composed_pause _
  case resetPosition => exact Movement.composed_resetPosition
  case waitFor => exact Movement.composed_waitFor (List.mem_singleton_self _) _
  case scrollClip => exact Movement.composed_scrollClip _ _
  case scrollLoop => exact Movement.composed_scrollLoop _ _
  case scrollBounce => exact Movement.composed_scrollBounce _
  case slide => exact Movement.composed_slide _
  case period => exact Movement.composed_declarePeriod _

end Choreography
