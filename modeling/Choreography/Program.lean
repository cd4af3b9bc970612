import Choreography.Expression
import Choreography.Table

/-! # Programs

A program is a tree of statements that move one widget, together with named constants. -/
namespace Choreography

inductive Direction where
  | left | right | up | down
deriving DecidableEq, Repr, Inhabited

namespace Direction

/-- One pixel along a direction; vertical coordinates grow downward. -/
def delta : Direction → Int × Int
  | .left => (-1, 0)
  | .right => (1, 0)
  | .up => (0, -1)
  | .down => (0, 1)

def opposite : Direction → Direction
  | .left => .right
  | .right => .left
  | .up => .down
  | .down => .up

def isHorizontal : Direction → Bool
  | .left => true
  | .right => true
  | _ => false

def name : Direction → String
  | .left => "left"
  | .right => "right"
  | .up => "up"
  | .down => "down"

theorem delta_opposite (d : Direction) :
    d.opposite.delta = (-d.delta.1, -d.delta.2) := by cases d <;> rfl

end Direction

/-- Arguments that the directional movements share. -/
structure Motion where
  direction : Direction
  distance : Expr
  /-- Pixels from one frame to the next. -/
  step : Expr
  /-- Ticks for which each frame is held. -/
  interval : Expr
  /-- Blank space between the repeats of a wrapping scroll. -/
  gap : Expr
  /-- Paused ticks at each end of a bounce. -/
  pauseAtEnds : Expr
deriving DecidableEq, Repr

def Motion.along (direction : Direction) (distance : Expr) : Motion :=
  ⟨direction, distance, .one, .one, .zero, .zero⟩

structure PointExpr where
  x : Expr
  y : Expr
deriving DecidableEq, Repr

inductive LoopCount where
  | infinite
  | times (count : Expr)
deriving DecidableEq, Repr

mutual

inductive Statement where
  | move (motion : Motion)
  | moveTo (start finish : PointExpr) (step interval : Expr)
  | pause (duration : Expr)
  | resetPosition
  | loop (count : LoopCount) (body : List Statement)
  | conditional (branches : List Branch) (otherwise : List Statement)
  | breakLoop
  | continueLoop
  | sync (event : String)
  | waitFor (event : String) (maxTicks : Expr)
  | scrollClip (motion : Motion)
  | scrollLoop (motion : Motion)
  | scrollBounce (motion : Motion)
  | slide (motion : Motion)
  | define (name : String) (body : List Statement)
  | call (name : String)
  | period (ticks : Expr)
  | segment (name : String) (body : List Statement)

/-- One arm of a conditional. -/
inductive Branch where
  | mk (condition : Expr) (body : List Statement)

end

instance : Inhabited Statement := ⟨.resetPosition⟩

abbrev Block := List Statement

def Branch.condition : Branch → Expr
  | .mk condition _ => condition

def Branch.body : Branch → Block
  | .mk _ body => body

namespace Statement

/-- The word that names the kind of a statement. -/
def kind : Statement → String
  | .move _ => "move"
  | .moveTo .. => "move_to"
  | .pause _ => "pause"
  | .resetPosition => "reset_position"
  | .loop .. => "loop"
  | .conditional .. => "if"
  | .breakLoop => "break"
  | .continueLoop => "continue"
  | .sync _ => "sync"
  | .waitFor .. => "wait_for"
  | .scrollClip _ => "scroll_clip"
  | .scrollLoop _ => "scroll_loop"
  | .scrollBounce _ => "scroll_bounce"
  | .slide _ => "slide"
  | .define .. => "define"
  | .call _ => "call"
  | .period _ => "period"
  | .segment .. => "segment"

def repeated (count : Expr) (body : Block) : Statement := .loop (.times count) body

def forever (body : Block) : Statement := .loop .infinite body

mutual

/-- How many sequences a statement defines, at any depth. -/
def definitionCount : Statement → Nat
  | .loop _ body => blockDefinitionCount body
  | .conditional branches otherwise =>
      branchDefinitionCount branches + blockDefinitionCount otherwise
  | .define _ body => blockDefinitionCount body + 1
  | .segment _ body => blockDefinitionCount body
  | _ => 0

def blockDefinitionCount : List Statement → Nat
  | [] => 0
  | s :: rest => s.definitionCount + blockDefinitionCount rest

def branchDefinitionCount : List Branch → Nat
  | [] => 0
  | .mk _ body :: rest => blockDefinitionCount body + branchDefinitionCount rest

end

end Statement

structure Program where
  statements : Block
  constants : Table Value

instance : Inhabited Program := ⟨⟨[], ∅⟩⟩

def Program.ofBlock (statements : Block) : Program := ⟨statements, ∅⟩

def Program.withConstant (p : Program) (name : String) (value : Value) : Program :=
  { p with constants := p.constants.insert name value }

end Choreography
