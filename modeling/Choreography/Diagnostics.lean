import Choreography.Evaluation
import Choreography.Program

/-! # Diagnostics

Warnings about statements that cannot do anything. They are read off the tree alone: nothing
reported here keeps a program from running. -/
namespace Choreography

inductive Warning where
  | undefinedSequence (name : String)
  | duplicateSequence (name : String)
  | breakOutsideLoop
  | continueOutsideLoop
  | nonPositiveArgument (statement argument : String) (value : Int)
deriving DecidableEq, Repr

namespace Warning

def text : Warning → String
  | .undefinedSequence name => "sequence '" ++ name ++ "' is called but never defined"
  | .duplicateSequence name => "sequence '" ++ name ++ "' is defined more than once"
  | .breakOutsideLoop => "break outside of a loop is ignored"
  | .continueOutsideLoop => "continue outside of a loop is ignored"
  | .nonPositiveArgument statement argument value =>
      statement ++ " has " ++ argument ++ " = " ++ toString value ++ "; nothing will be emitted"

end Warning

namespace Diagnostics

/-- A warning for an argument that is literally zero or less. -/
def positive (statement argument : String) (e : Expr) : List Warning :=
  match e.literalInteger? with
  | some value => if value ≤ 0 then [.nonPositiveArgument statement argument value] else []
  | none => []

def stepping (statement : String) (step interval : Expr) : List Warning :=
  positive statement "step" step ++ positive statement "interval" interval

def movement (statement : String) (m : Motion) : List Warning :=
  positive statement "distance" m.distance ++ stepping statement m.step m.interval

/-- What a walk over a program has collected: the names defined so far, the names called, and the
warnings, each in the order of the text. -/
structure Survey where
  defined : List String
  called : List String
  warnings : List Warning

namespace Survey

def warn (s : Survey) (ws : List Warning) : Survey := { s with warnings := s.warnings ++ ws }

def define (s : Survey) (name : String) : Survey :=
  if s.defined.contains name then s.warn [.duplicateSequence name]
  else { s with defined := s.defined ++ [name] }

def call (s : Survey) (name : String) : Survey := { s with called := s.called ++ [name] }

end Survey

mutual

/-- Surveys one statement inside a given number of loops; the body of a sequence counts as inside
a loop, since it may be called from one. -/
def surveyStatement (depth : Nat) (st : Statement) (s : Survey) : Survey :=
  match st with
  | .move m => s.warn (movement "move" m)
  | .scrollClip m => s.warn (movement "scroll_clip" m)
  | .scrollBounce m => s.warn (movement "scroll_bounce" m)
  | .slide m => s.warn (movement "slide" m)
  | .scrollLoop m => s.warn (stepping "scroll_loop" m.step m.interval)
  | .moveTo _ _ step interval => s.warn (stepping "move_to" step interval)
  | .pause duration => s.warn (positive "pause" "duration" duration)
  | .waitFor _ maxTicks => s.warn (positive "wait_for" "max_ticks" maxTicks)
  | .period ticks => s.warn (positive "period" "ticks" ticks)
  | .loop (.times count) body =>
      surveyBlock (depth + 1) body (s.warn (positive "loop" "count" count))
  | .loop .infinite body => surveyBlock (depth + 1) body s
  | .conditional branches otherwise =>
      surveyBlock depth otherwise (surveyBranches depth branches s)
  | .breakLoop => if depth = 0 then s.warn [.breakOutsideLoop] else s
  | .continueLoop => if depth = 0 then s.warn [.continueOutsideLoop] else s
  | .define name body => surveyBlock (max depth 1) body (s.define name)
  | .call name => s.call name
  | .segment _ body => surveyBlock depth body s
  | .resetPosition => s
  | .sync _ => s

def surveyBlock (depth : Nat) (block : List Statement) (s : Survey) : Survey :=
  match block with
  | [] => s
  | st :: rest => surveyBlock depth rest (surveyStatement depth st s)

def surveyBranches (depth : Nat) (branches : List Branch) (s : Survey) : Survey :=
  match branches with
  | [] => s
  | .mk _ body :: rest => surveyBranches depth rest (surveyBlock depth body s)

end

/-- One warning for each name that is called and never defined. -/
def undefinedCalls (s : Survey) : List Warning :=
  ((s.called.filter fun name => !s.defined.contains name).eraseDups).map .undefinedSequence

/-- The warnings of a whole program, those on undefined sequences last. -/
def ofProgram (p : Program) : List Warning :=
  let s := surveyBlock 0 p.statements ⟨[], [], []⟩
  s.warnings ++ undefinedCalls s

mutual

/-- The literal arguments of a statement that are checked, in the order of the checks. -/
def checkedArguments : Statement → List Expr
  | .move m => [m.distance, m.step, m.interval]
  | .scrollClip m => [m.distance, m.step, m.interval]
  | .scrollBounce m => [m.distance, m.step, m.interval]
  | .slide m => [m.distance, m.step, m.interval]
  | .scrollLoop m => [m.step, m.interval]
  | .moveTo _ _ step interval => [step, interval]
  | .pause duration => [duration]
  | .waitFor _ maxTicks => [maxTicks]
  | .period ticks => [ticks]
  | .loop (.times count) body => count :: checkedArgumentsOfBlock body
  | .loop .infinite body => checkedArgumentsOfBlock body
  | .conditional branches otherwise =>
      checkedArgumentsOfBranches branches ++ checkedArgumentsOfBlock otherwise
  | .define _ body => checkedArgumentsOfBlock body
  | .segment _ body => checkedArgumentsOfBlock body
  | _ => []

def checkedArgumentsOfBlock : List Statement → List Expr
  | [] => []
  | s :: rest => checkedArguments s ++ checkedArgumentsOfBlock rest

def checkedArgumentsOfBranches : List Branch → List Expr
  | [] => []
  | .mk _ body :: rest => checkedArgumentsOfBlock body ++ checkedArgumentsOfBranches rest

end

/-- The faults of reading literal arguments as integers. -/
def programFaults (p : Program) : List Notice :=
  (checkedArgumentsOfBlock p.statements).flatMap fun e =>
    match e with
    | .literal v => Env.integerFaults v
    | _ => []

end Diagnostics
end Choreography
