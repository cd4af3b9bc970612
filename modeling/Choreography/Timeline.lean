import Choreography.Value

/-! # Timelines

A frame is one state of the animation. A timeline is the sequence of frames generated for a
widget, with what was recorded on the way, and answers the queries of playback. -/
namespace Choreography

structure Size where
  width : Int
  height : Int
deriving DecidableEq, Repr, Inhabited

/-- One frame: coordinates, and marks that say why the frame exists. -/
structure Frame where
  x : Int
  y : Int
  pause : Bool
  pauseEnd : Bool
  terminal : Bool
  reset : Bool
  segment : Option String
deriving DecidableEq, Repr, Inhabited

namespace Frame

/-- A frame without marks. -/
def plain (x y : Int) : Frame := ⟨x, y, false, false, false, false, none⟩

def coords (f : Frame) : Int × Int := (f.x, f.y)

/-- Whether two frames show the widget at one place, whatever their marks. -/
def samePlace (f g : Frame) : Bool := f.x == g.x && f.y == g.y

def unmarked (f : Frame) : Frame := plain f.x f.y

def paused (f : Frame) : Frame := { f with pause := true }

def asTerminal (f : Frame) : Frame := { f with terminal := true }

/-- The larger of the distances on the two axes. -/
def chebyshev (f g : Frame) : Nat := max (g.x - f.x).natAbs (g.y - f.y).natAbs

def sum (f g : Frame) : Frame := plain (f.x + g.x) (f.y + g.y)

theorem samePlace_iff (f g : Frame) : f.samePlace g = true ↔ f.coords = g.coords := by
  simp [samePlace, coords]

end Frame

/-- A named event with the tick at which it is announced. -/
structure SyncEvent where
  name : String
  tick : Nat
deriving DecidableEq, Repr, Inhabited

/-- The frames from `start` to before `finish`, under a name. -/
structure Span where
  name : String
  start : Nat
  finish : Nat
deriving DecidableEq, Repr, Inhabited

/-- The frames of one widget. A period, if there is one, is positive, and only the frames before
it are played. -/
structure Timeline where
  frames : Array Frame
  period : Option Nat
  loopStart : Nat
  segments : List Span
  syncs : List SyncEvent
deriving DecidableEq, Repr, Inhabited

namespace Timeline

/-- A timeline from recorded parts; a period of zero is none. -/
def build (frames : Array Frame) (period : Option Nat) (loopStart : Nat) (segments : List Span)
    (syncs : List SyncEvent) : Timeline :=
  ⟨frames, period.filter (0 < ·), loopStart, segments, syncs⟩

/-- The number of all frames. -/
def total (t : Timeline) : Nat := t.frames.size

/-- The number of frames that are played. -/
def length (t : Timeline) : Nat :=
  match t.period with
  | some period => min period t.frames.size
  | none => t.frames.size

def isEmpty (t : Timeline) : Bool := t.length == 0

/-- A paused frame begins a pause unless it goes on with that of the frame before. -/
def startsPause (t : Timeline) (i : Nat) : Bool :=
  match t.frames[i]? with
  | none => false
  | some f =>
      f.pause && !(i != 0 && match t.frames[i - 1]? with
        | some before => before.pause && !before.pauseEnd
        | none => false)

def endsPause (t : Timeline) (i : Nat) : Bool := (t.frames[i]?.map Frame.pauseEnd).getD false

def arrives (t : Timeline) (i : Nat) : Bool := (t.frames[i]?.map Frame.terminal).getD false

/-- The last frame that is played. -/
def last? (t : Timeline) : Option Frame :=
  if t.length = 0 then none else t.frames[t.length - 1]?

def played (t : Timeline) : Array Frame := t.frames.extract 0 t.length

def pauseCount (t : Timeline) : Nat := t.played.countP Frame.pause

def terminalCount (t : Timeline) : Nat := t.played.countP Frame.terminal

/-- The index of the frame shown at a tick; playback starts over after the last frame. -/
def index? (t : Timeline) (tick : Nat) : Option Nat :=
  if t.length = 0 then none else some (tick % t.length)

def frameAt (t : Timeline) (tick : Nat) : Option Frame := (t.index? tick).bind (t.frames[·]?)

def isPauseStart (t : Timeline) (tick : Nat) : Bool := (t.index? tick).any t.startsPause

def isPauseEnd (t : Timeline) (tick : Nat) : Bool := (t.index? tick).any t.endsPause

def isTerminal (t : Timeline) (tick : Nat) : Bool := (t.index? tick).any t.arrives

def isLoopStart (t : Timeline) (tick : Nat) : Bool := (t.index? tick).any (· == t.loopStart)

theorem frameAt_add_length (t : Timeline) (tick : Nat) :
    t.frameAt (tick + t.length) = t.frameAt tick := by
  simp [frameAt, index?, Nat.add_mod_right]

end Timeline
end Choreography
