import Choreography.Recorder

/-! # Movements

The statements that add frames. Arguments that cannot move anything are reported and add
nothing; a movement that reaches the cap of the recorder stops there. Offsets are computed with
signed integers of sixty-four bits, which wrap around. -/
namespace Choreography.Movement

/-- The arguments of a directional movement after evaluation. -/
structure Pace where
  direction : Direction
  distance : Int
  step : Int
  interval : Nat
  gap : Int
  pauseAtEnds : Nat
deriving DecidableEq, Repr

/-- The arguments of a movement where its step and its interval are positive. -/
def paceIn (env : Env) (m : Motion) : Pace where
  direction := m.direction
  distance := env.evalInteger m.distance
  step := env.evalInteger m.step
  interval := (env.evalInteger m.interval).toNat
  gap := env.evalInteger m.gap
  pauseAtEnds := (env.evalInteger m.pauseAtEnds).toNat

/-- Evaluates the arguments of a movement, whose step and interval must be positive. -/
def pace (command : String) (m : Motion) (r : Recorder) : Recorder × Option Pace :=
  let step := r.env.evalInteger m.step
  let interval := r.env.evalInteger m.interval
  let r := r.noteIntegers [m.step, m.interval]
  if step ≤ 0 ∨ interval ≤ 0 then (r.note [.unusableStep command step interval], none)
  else (r.noteIntegers [m.distance, m.gap, m.pauseAtEnds], some (paceIn r.env m))

/-- The frame some pixels from a place, kept within thirty-two bits on both axes. -/
def along (place : Frame) (direction : Direction) (amount : Int) : Frame :=
  .plain (clampSigned 32 (wrapSigned 64 (place.x + direction.delta.1 * amount)))
    (clampSigned 32 (wrapSigned 64 (place.y + direction.delta.2 * amount)))

/-- Holds `n` points of a sequence, from index `i` on, until the cap; the first index that was not
completed. -/
def trace (point : Nat → Frame) (interval : Nat) (r : Recorder) (i : Nat) : Nat → Recorder × Nat
  | 0 => (r, i)
  | n + 1 =>
      match r.emitHeld (point i) interval with
      | (r, true) => trace point interval r (i + 1) n
      | (r, false) => (r, i)

/-- The offset one step on, at most the distance. -/
def Pace.next (p : Pace) (moved : Int) : Int := min (wrapSigned 64 (moved + p.step)) p.distance

/-- Goes on from an offset, a step at a time, until the distance is reached or a frame is dropped,
or for so many steps; the offset that was reached. -/
def goOn (p : Pace) (hold : Int → Recorder → Recorder × Bool) (r : Recorder) (moved : Int) :
    Nat → Recorder × Int
  | 0 => (r, moved)
  | n + 1 =>
      if moved < p.distance then
        match hold (p.next moved) r with
        | (r, true) => goOn p hold r (p.next moved) n
        | (r, false) => (r, moved)
      else (r, moved)

/-- More steps than any timeline has frames: a walk that wraps around for ever ends at the cap. -/
def stepBound : Nat := 1 <<< 64

/-- Walks from an offset to a distance; the offset that was reached. -/
def walk (r : Recorder) (origin : Frame) (p : Pace) (moved : Int) : Recorder × Int :=
  goOn p (fun offset r => r.emitHeld (along origin p.direction offset) p.interval) r moved stepBound

/-- Moves at the pace that the arguments give, if they give one. -/
def atPace (command : String) (m : Motion) (body : Pace → Recorder → Recorder) (r : Recorder) :
    Recorder :=
  match pace command m r with
  | (r, none) => r
  | (r, some p) => body p r

/-- Reports a distance that cannot be covered. -/
def overDistance (command : String) (body : Pace → Recorder → Recorder) (p : Pace) (r : Recorder) :
    Recorder :=
  if p.distance ≤ 0 then r.note [.unusableDistance command p.distance] else body p r

/-- A number of whole steps from the place where the widget is. -/
def stride (p : Pace) (count : Nat) (r : Recorder) : Recorder :=
  let origin := r.current
  (trace (fun i => along origin p.direction (wrapSigned 64 (i * p.step))) p.interval r 1 count).1

/-- Whole steps along a direction; what is left of the distance is dropped. -/
def move (m : Motion) : Recorder → Recorder :=
  atPace "move" m fun p r =>
    if p.distance ≤ 0 then r else stride p (p.distance / p.step).toNat r

/-- The point a part `i` of `count` on the straight way between two places. The products are not
wrapped around: only a way of more than 2 ^ 31 parts has one of more than sixty-four bits. -/
def interpolate (start finish : Frame) (count i : Nat) : Frame :=
  .plain (clampSigned 32 (start.x + ((finish.x - start.x) * i).tdiv count))
    (clampSigned 32 (start.y + ((finish.y - start.y) * i).tdiv count))

/-- Jumps to a place unless the widget is there; whether all frames were kept. -/
def jumpTo (place : Frame) (r : Recorder) : Recorder × Bool :=
  if r.current.samePlace place then (r, true) else r.emit place

/-- The straight way from a place, where the widget is, to another one. -/
def line (first last : Frame) (stride hold : Nat) (r : Recorder) : Recorder :=
  let count := first.chebyshev last / stride
  if count = 0 then
    if first.samePlace last then r else (r.emitHeld last hold).1
  else (trace (interpolate first last count) hold r 1 count).1

/-- A straight way between two places, after a jump to the first one if the widget is elsewhere. -/
def way (first last : Frame) (stride hold : Nat) (r : Recorder) : Recorder :=
  match jumpTo first r with
  | (r, true) => line first last stride hold r
  | (r, false) => r

def moveTo (start finish : PointExpr) (step interval : Expr) (r : Recorder) : Recorder :=
  let first := Frame.plain (r.env.evalPixels start.x) (r.env.evalPixels start.y)
  let last := Frame.plain (r.env.evalPixels finish.x) (r.env.evalPixels finish.y)
  let stride := r.env.evalInteger step
  let hold := r.env.evalInteger interval
  let r := r.noteIntegers [start.x, start.y, finish.x, finish.y, step, interval]
  if stride ≤ 0 ∨ hold ≤ 0 then r.note [.unusableStep "move_to" stride hold]
  else way first last stride.toNat hold.toNat r

def pause (duration : Expr) (r : Recorder) : Recorder :=
  let ticks := r.env.evalInteger duration
  let r := r.noteIntegers [duration]
  r.emitPause r.current ticks.toNat

/-- An instant jump to the origin. -/
def resetPosition (r : Recorder) : Recorder :=
  (r.emit { Frame.plain 0 0 with reset := true }).1

/-- Announces an event and holds the widget for a frame. -/
def sync (event : String) (r : Recorder) : Recorder :=
  let r := r.announce event
  (r.emit r.current).1

/-- How long to wait for an event: until its tick if that is known, one frame if this run has
announced it, else as long as allowed. -/
def waitLength (r : Recorder) (event : String) (maxTicks : Nat) : Nat :=
  match r.eventTicks.find? event with
  | some known => min maxTicks (max 1 (known - r.tick))
  | none => if r.announced.contains event then 1 else maxTicks

/-- A pause until an event, then one frame that goes on. -/
def waitFor (event : String) (maxTicks : Expr) (r : Recorder) : Recorder :=
  let ticks := (r.env.evalInteger maxTicks).toNat
  let r := r.noteIntegers [maxTicks]
  let here := r.current
  ((r.emitPause here (waitLength r event ticks)).emit here).1

/-- Sets the period of the timeline, which must be positive. -/
def declarePeriod (ticks : Expr) (r : Recorder) : Recorder :=
  let value := r.env.evalInteger ticks
  let r := r.noteIntegers [ticks]
  if 0 < value then r.setExplicitPeriod value.toNat else r.note [.unusablePeriod value]

/-- Whether the last frame is at a place. -/
def isAt (r : Recorder) (place : Frame) : Bool :=
  (r.frames.back?.map fun f => f.samePlace place).getD false

/-- Covers what is left of the distance and marks the arrival. -/
def proceed (t : Travel) (p : Pace) (r : Recorder) : Recorder × Travel :=
  let (r, moved) := walk r t.origin { p with direction := t.direction } t.moved
  (if p.distance ≤ moved then r.markTerminal else r, { t with moved := clampSigned 32 moved })

/-- Adds an arrival at the end of the distance if the widget was moved away. -/
def settle (t : Travel) (p : Pace) (r : Recorder) : Recorder :=
  let target := along t.origin t.direction p.distance
  if isAt r target then r else (r.emit target.asTerminal).1

/-- Covers what is left of the distance. Once it is covered, one more call may add an arrival;
later calls add nothing. -/
def cumulate (t : Travel) (p : Pace) (r : Recorder) : Recorder × Travel :=
  if t.moved < p.distance then proceed t p r
  else if t.settled then (r, t)
  else (settle t p r, { t with settled := true })

def departure (r : Recorder) (p : Pace) : Travel := ⟨r.current, p.direction, 0, false⟩

/-- Scrolls once to a distance; each statement remembers how far it has come. -/
def scrollClip (site : Site) (m : Motion) : Recorder → Recorder :=
  atPace "scroll_clip" m <| overDistance "scroll_clip" fun p r =>
    let (r, t) := cumulate ((Assoc.find? site r.clips).getD (departure r p)) p r
    r.setClip site t

/-- Like a clipped scroll, but the whole program shares one memory, which another direction
starts anew. -/
def slide (m : Motion) : Recorder → Recorder :=
  atPace "slide" m <| overDistance "slide" fun p r =>
    let (r, t) := cumulate ((r.slide.filter (·.direction == p.direction)).getD (departure r p)) p r
    r.setSlide t

/-- The pixels after which a wrapping scroll looks the same again. -/
def scrollUnit (r : Recorder) (p : Pace) : Int × Int :=
  let size := if p.direction.isHorizontal then r.env.width else r.env.height
  (size, wrapSigned 64 (size + p.gap))

/-- The greatest common divisor by Euclid's algorithm. -/
def commonDivisor (a b : Nat) : Nat := if b = 0 then a else commonDivisor b (a % b)
termination_by b
decreasing_by exact Nat.mod_lt _ (Nat.pos_of_ne_zero ‹_›)

/-- One cycle of a wrapping scroll, whose length in frames may become the period. -/
def wrap (site : Site) (p : Pace) (r : Recorder) : Recorder :=
  let (size, unit) := scrollUnit r p
  if unit ≤ 0 then r.note [.unusableScrollUnit size p.gap]
  else
    let r := (stride p (unit.toNat / commonDivisor p.step.toNat unit.toNat) r).finishScroll site
    r.setImplicitPeriod r.frames.size

/-- One cycle of a wrapping scroll: as many steps as bring the widget back to where the wrapped
picture repeats. Each statement does so once. -/
def scrollLoop (site : Site) (m : Motion) (r : Recorder) : Recorder :=
  if r.finishedScrolls.contains site then r else atPace "scroll_loop" m (wrap site) r

/-- The arrival at the origin of a bounce. At the origin of the display a frame one pixel away
goes before it, so that it does not look like a reset. -/
def arrive (origin : Frame) (p : Pace) (r : Recorder) : Recorder :=
  let transitional := along origin p.direction 1
  let r :=
    if origin.coords = (0, 0) ∧ !isAt r transitional then (r.emit transitional).1 else r
  (r.emitHeld origin p.interval).1

/-- The way back from the boundary of a bounce to its origin. -/
def comeBack (origin boundary : Frame) (p : Pace) (r : Recorder) : Recorder :=
  let hold (offset : Int) (r : Recorder) : Recorder × Bool :=
    if offset = p.distance then (arrive origin p r, true)
    else r.emitHeld (along boundary p.direction.opposite offset) p.interval
  (goOn p hold r 0 stepBound).1

/-- Out to a distance, a pause there, back, and a pause again. -/
def bounce (p : Pace) (r : Recorder) : Recorder :=
  let origin := r.current
  let boundary := along origin p.direction p.distance
  let r := (walk r origin p 0).1
  let r := r.emitPause boundary p.pauseAtEnds
  let r := (r.emit boundary).1
  let r := comeBack origin boundary p r
  let r := r.emitPause origin p.pauseAtEnds
  r.setImplicitPeriod r.frames.size

def scrollBounce (m : Motion) : Recorder → Recorder :=
  atPace "scroll_bounce" m (overDistance "scroll_bounce" bounce)

end Choreography.Movement
