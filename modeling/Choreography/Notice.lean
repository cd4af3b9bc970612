import Choreography.Expression

/-! # Notices

What the library reports while it works: faults that a default replaces, statements that do
nothing, limits that cut a run short. A notice is a cause; its level, message and fields are
computed from it. -/
namespace Choreography

inductive Level where
  | warn | error
deriving DecidableEq, Repr

inductive Notice where
  | notANumber (text : String)
  | undefinedVariable (name : String)
  | incomparable (op : Comparison) (lhs rhs : Value)
  | integerDivisionByZero (op : Arithmetic) (lhs : Int)
  | numberDivisionByZero (op : Arithmetic) (lhs : Binary64)
  | integerOverflow (op : Arithmetic) (lhs rhs : Int)
  | typeMismatch (op : Arithmetic) (lhs rhs : Value)
  | unusableStep (command : String) (step interval : Int)
  | unusableDistance (command : String) (distance : Int)
  | unusableScrollUnit (size gap : Int)
  | unusablePeriod (ticks : Int)
  | strayBreak
  | strayContinue
  | undefinedSequence (name : String)
  | capReached (maxPositions : Nat)
  | brokenCycle (cycle generated : Nat)
  | tooDeep (maxDepth positions : Nat)
  | contestedEvent (event previous owner : String)
  | dependencyCycle (cycle : String)
  | stalled
  | budgetExhausted (widget : String)
deriving DecidableEq, Repr

/-- A result together with what was reported on the way to it. -/
structure Logged (α : Type u) where
  value : α
  log : Array Notice

namespace Logged

instance : Monad Logged where
  pure a := ⟨a, #[]⟩
  bind x f := ⟨(f x.value).value, x.log ++ (f x.value).log⟩

/-- Reports a notice. -/
def note (n : Notice) : Logged Unit := ⟨(), #[n]⟩

@[simp] theorem value_pure (a : α) : (pure a : Logged α).value = a := rfl

@[simp] theorem value_bind (x : Logged α) (f : α → Logged β) :
    (x >>= f).value = (f x.value).value := rfl

end Logged

namespace Notice

def level : Notice → Level
  | .tooDeep .. => .error
  | _ => .warn

def message : Notice → String
  | .notANumber _ => "Expected a number, using 0"
  | .undefinedVariable _ => "Undefined variable, using 0"
  | .incomparable .. => "Cannot compare values, using false"
  | .integerDivisionByZero .. => "Division by zero, using 0"
  | .numberDivisionByZero .. => "Division by zero, using 0"
  | .integerOverflow .. => "Integer overflow, using 0"
  | .typeMismatch .. => "Type mismatch, using 0"
  | .unusableStep .. => "Step and interval must be positive, skipping"
  | .unusableDistance command _ => command ++ " needs a positive distance, skipping"
  | .unusableScrollUnit .. => "scroll_loop unit is not positive, skipping"
  | .unusablePeriod _ => "Period must be positive, ignored"
  | .strayBreak => "break outside of a loop ignored"
  | .strayContinue => "continue outside of a loop ignored"
  | .undefinedSequence _ => "Call of undefined sequence ignored"
  | .capReached _ => "Position cap reached, dropping further output"
  | .brokenCycle .. => "Frames after a looping command break its cycle, playing the whole timeline"
  | .tooDeep .. => "Timeline generation aborted, returning partial timeline"
  | .contestedEvent .. => "Event emitted by more than one widget, keeping the latest"
  | .dependencyCycle _ => "Dependency cycle detected, breaking it"
  | .stalled => "Resolution stalled without a cycle"
  | .budgetExhausted _ => "Iteration budget exhausted, forcing resolution"

/-- The named details of a notice, as text. -/
def fields : Notice → List (String × String)
  | .notANumber text => [("value", text)]
  | .undefinedVariable name => [("name", name)]
  | .incomparable op lhs rhs =>
      [("lhs", lhs.text), ("rhs", rhs.text), ("op", (Operator.comparison op).symbol)]
  | .integerDivisionByZero op lhs =>
      [("op", (Operator.arithmetic op).symbol), ("lhs", toString lhs)]
  | .numberDivisionByZero op lhs =>
      [("op", (Operator.arithmetic op).symbol), ("lhs", Decimal.diagnostic.text lhs)]
  | .integerOverflow op lhs rhs =>
      [("op", (Operator.arithmetic op).symbol), ("lhs", toString lhs), ("rhs", toString rhs)]
  | .typeMismatch op lhs rhs =>
      [("lhs", lhs.text), ("rhs", rhs.text), ("op", (Operator.arithmetic op).symbol)]
  | .unusableStep command step interval =>
      [("command", command), ("step", toString step), ("interval", toString interval)]
  | .unusableDistance _ distance => [("distance", toString distance)]
  | .unusableScrollUnit size gap => [("size", toString size), ("gap", toString gap)]
  | .unusablePeriod ticks => [("ticks", toString ticks)]
  | .strayBreak => []
  | .strayContinue => []
  | .undefinedSequence name => [("sequence", name)]
  | .capReached maxPositions => [("max_positions", toString maxPositions)]
  | .brokenCycle cycle generated =>
      [("cycle", toString cycle), ("generated", toString generated)]
  | .tooDeep maxDepth positions =>
      [("error", "Program error: nesting deeper than " ++ toString maxDepth ++ " frames"),
        ("positions", toString positions)]
  | .contestedEvent event previous owner =>
      [("event", event), ("previous", previous), ("owner", owner)]
  | .dependencyCycle cycle => [("cycle", cycle)]
  | .stalled => []
  | .budgetExhausted widget => [("widget", widget)]

end Notice
end Choreography
