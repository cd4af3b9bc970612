import Choreography.Assoc
import Choreography.Evaluation
import Choreography.Program
import Choreography.Smoothing

/-! # Recording a run

The recorder holds what a run has produced so far: its frames, the spans and events on them, and
the memory of the cumulative movements. Frames are only ever added at the end, up to a cap. -/
namespace Choreography

/-- The place of a statement in the tree of a program: the indices on the way to it, the innermost
first. It tells apart equal statements at different places. -/
abbrev Site := List Nat

/-- How far a cumulative movement has come. -/
structure Travel where
  origin : Frame
  direction : Direction
  moved : Int
  settled : Bool
deriving DecidableEq, Repr

structure Recorder where
  env : Env
  frames : Array Frame
  maxPositions : Nat
  /-- Whether a frame has been dropped. -/
  capped : Bool
  smoothing : Bool
  activeSegment : Option String
  /-- Ticks of events that are announced elsewhere. -/
  eventTicks : Table Nat
  /-- Events that this run has announced. -/
  announced : Table Unit
  clips : List (Site × Travel)
  slide : Option Travel
  finishedScrolls : List Site
  explicitPeriod : Option Nat
  implicitPeriod : Option Nat
  loopStart : Option Nat
  spans : Array Span
  syncs : Array SyncEvent
  log : Array Notice

namespace Recorder

def start (env : Env) (eventTicks : Table Nat) (maxPositions : Nat) (smoothing : Bool) :
    Recorder where
  env := env
  frames := #[]
  maxPositions := maxPositions
  capped := false
  smoothing := smoothing
  activeSegment := none
  eventTicks := eventTicks
  announced := ∅
  clips := []
  slide := none
  finishedScrolls := []
  explicitPeriod := none
  implicitPeriod := none
  loopStart := none
  spans := #[]
  syncs := #[]
  log := #[]

/-- The index of the next frame. -/
def tick (r : Recorder) : Nat := r.frames.size

/-- The place where the widget is, as a frame without marks. -/
def current (r : Recorder) : Frame := .plain r.env.x r.env.y

def note (r : Recorder) (notices : List Notice) : Recorder :=
  { r with log := notices.foldl Array.push r.log }

/-- Adds a frame, or drops it at the cap; the first drop is reported. -/
def push (r : Recorder) (f : Frame) : Recorder × Bool :=
  if r.maxPositions ≤ r.frames.size then
    (if r.capped then r else { r with capped := true }.note [.capReached r.maxPositions], false)
  else ({ r with frames := r.frames.push f }, true)

/-- Adds frames until one is dropped. -/
def pushAll (r : Recorder) : List Frame → Recorder × Bool
  | [] => (r, true)
  | f :: rest =>
      match r.push f with
      | (r, true) => r.pushAll rest
      | (r, false) => (r, false)

/-- A frame under the name of the active segment, unless it has a name. -/
def label (r : Recorder) (f : Frame) : Frame :=
  match f.segment with
  | some _ => f
  | none => { f with segment := r.activeSegment }

/-- Adds a frame, with the frames that smoothing puts before it; whether all were kept. -/
def emit (r : Recorder) (f : Frame) : Recorder × Bool :=
  let f := r.label f
  if r.smoothing then
    match r.pushAll (Smoothing.inserted r.frames.back? f) with
    | (r, true) => r.push f
    | (r, false) => (r, false)
  else r.push f

/-- Adds one frame several times; whether all were kept. -/
def emitHeld (r : Recorder) (f : Frame) : Nat → Recorder × Bool
  | 0 => (r, true)
  | n + 1 =>
      match r.emit f with
      | (r, true) => r.emitHeld f n
      | (r, false) => (r, false)

/-- Adds paused frames at a place; the last one ends the pause. -/
def emitPause (r : Recorder) (place : Frame) : Nat → Recorder
  | 0 => r
  | n + 1 =>
      match r.emit { place.unmarked.paused with pauseEnd := n == 0 } with
      | (r, true) => r.emitPause place n
      | (r, false) => r

/-- Marks the last frame as an arrival. -/
def markTerminal (r : Recorder) : Recorder :=
  { r with frames := r.frames.modify (r.frames.size - 1) Frame.asTerminal }

/-- Moves the widget to the place of the last frame. -/
def follow (r : Recorder) : Recorder :=
  match r.frames.back? with
  | some f => { r with env := { r.env with x := f.x, y := f.y } }
  | none => r

def place (r : Recorder) (x y : Int) : Recorder := { r with env := { r.env with x := x, y := y } }

/-- Announces an event at the next frame. -/
def announce (r : Recorder) (event : String) : Recorder :=
  { r with announced := r.announced.add event, syncs := r.syncs.push ⟨event, r.tick⟩ }

def setClip (r : Recorder) (site : Site) (t : Travel) : Recorder :=
  { r with clips := Assoc.assign site t r.clips }

def setSlide (r : Recorder) (t : Travel) : Recorder := { r with slide := some t }

def finishScroll (r : Recorder) (site : Site) : Recorder :=
  { r with finishedScrolls := site :: r.finishedScrolls }

/-- Names the frames that follow after a segment. -/
def setSegment (r : Recorder) (name : Option String) : Recorder := { r with activeSegment := name }

def setExplicitPeriod (r : Recorder) (ticks : Nat) : Recorder :=
  { r with explicitPeriod := some ticks }

/-- Only the first cycle counts, and an empty one never. -/
def setImplicitPeriod (r : Recorder) (ticks : Nat) : Recorder :=
  if r.implicitPeriod.isNone ∧ 0 < ticks then { r with implicitPeriod := some ticks } else r

/-- Whether each frame from a cycle on is at the place of the one that it repeats. -/
def repeats (frames : Array Frame) (cycle : Nat) : Bool :=
  (List.range' cycle (frames.size - cycle)).all fun i =>
    match frames[i]?, frames[i - cycle]? with
    | some f, some g => f.samePlace g
    | _, _ => true

/-- The period of the whole timeline: an explicit one, else the cycle of a looping movement if
nothing after it breaks it. -/
def period (r : Recorder) : Option Nat :=
  match r.explicitPeriod with
  | some ticks => some ticks
  | none => r.implicitPeriod.filter (repeats r.frames)

/-- The report on a cycle that later frames break. -/
def periodFaults (r : Recorder) : List Notice :=
  match r.explicitPeriod, r.implicitPeriod with
  | none, some cycle =>
      if repeats r.frames cycle then [] else [.brokenCycle cycle r.frames.size]
  | _, _ => []

/-- The recorded timeline; a run without frames shows one fallback frame. -/
def timeline (r : Recorder) (fallback : Frame) : Timeline :=
  Timeline.build (if r.frames.isEmpty then #[fallback.unmarked] else r.frames) r.period
    (r.loopStart.getD 0) r.spans.toList r.syncs.toList

/-- The faults of evaluating arguments to integers, in their order. -/
def noteIntegers (r : Recorder) (es : List Expr) : Recorder :=
  r.note (es.flatMap r.env.evalIntegerFaults)

def closeSpan (r : Recorder) (name : String) (start : Nat) : Recorder :=
  { r with spans := r.spans.push ⟨name, start, r.frames.size⟩ }

end Recorder
end Choreography
