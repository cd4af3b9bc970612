import Choreography.Interpreter

/-! # Finding events without a run

A dry run visits the statements of a program to find the events that it announces and waits for.
Every branch is visited, and every loop body once, so that ticks are estimates. A sequence that
calls itself is expanded once. -/
namespace Choreography

structure DryRun where
  env : Env
  tick : Nat
  events : Array SyncEvent
  waits : Table Unit
  sequences : Table Block
  /-- The names of the sequences that are being expanded. -/
  expanding : List String
  log : Array Notice

namespace DryRun

def start (env : Env) : DryRun := ⟨env, 0, #[], ∅, ∅, [], #[]⟩

/-- Lets ticks pass, which are counted with sixty-four bits. -/
def elapse (d : DryRun) (ticks : Nat) : DryRun :=
  { d with tick := wrapUnsigned 64 (d.tick + ticks) }

/-- Lets as many ticks pass as an expression says. -/
def spend (d : DryRun) (e : Expr) : DryRun :=
  { d.elapse (d.env.evalInteger e).toNat with
    log := (d.env.evalIntegerFaults e).foldl Array.push d.log }

def announce (d : DryRun) (event : String) : DryRun :=
  { d.elapse 1 with events := d.events.push ⟨event, d.tick⟩ }

def await (d : DryRun) (event : String) : DryRun :=
  { d.elapse 1 with waits := d.waits.add event }

mutual

/-- Visits a statement, given how the body of a called sequence is visited. -/
def visitStatement (expand : Block → DryRun → DryRun) (s : Statement) (d : DryRun) : DryRun :=
  match s with
  | .pause duration => d.spend duration
  | .move m => d.spend m.interval
  | .scrollClip m => d.spend m.interval
  | .scrollLoop m => d.spend m.interval
  | .scrollBounce m => d.spend m.interval
  | .slide m => d.spend m.interval
  | .moveTo _ _ _ interval => d.spend interval
  | .sync event => d.announce event
  | .waitFor event _ => d.await event
  | .loop _ body => visitBlock expand body d
  | .conditional branches otherwise =>
      visitBlock expand otherwise (visitBranches expand branches d)
  | .segment _ body => visitBlock expand body d
  | .define name body => { d with sequences := d.sequences.insert name body }
  | .call name =>
      match d.sequences.find? name with
      | none => d
      | some body =>
          if d.expanding.contains name then d
          else
            let expanding := d.expanding
            { expand body { d with expanding := name :: expanding } with expanding := expanding }
  | .resetPosition => d.elapse 1
  | .breakLoop => d.elapse 1
  | .continueLoop => d.elapse 1
  | .period _ => d.elapse 1

def visitBlock (expand : Block → DryRun → DryRun) (block : List Statement) (d : DryRun) : DryRun :=
  match block with
  | [] => d
  | s :: rest => visitBlock expand rest (visitStatement expand s d)

def visitBranches (expand : Block → DryRun → DryRun) (branches : List Branch) (d : DryRun) :
    DryRun :=
  match branches with
  | [] => d
  | .mk _ body :: rest => visitBranches expand rest (visitBlock expand body d)

end

/-- Visits a block with calls nested up to a depth. -/
def visit : Nat → Block → DryRun → DryRun
  | 0 => visitBlock fun _ d => d
  | depth + 1 => visitBlock (visit depth)

/-- The dry run of a program. The names being expanded are distinct and defined, so calls nest no
deeper than there are definitions. -/
def of (program : Program) (env : Env) : DryRun :=
  visit (Statement.blockDefinitionCount program.statements) program.statements (start env)

end DryRun

namespace Performance

/-- The events that the program may announce, with estimated ticks. -/
def syncEvents (p : Performance) : Logged (List SyncEvent) :=
  let d := DryRun.of p.program p.env
  ⟨d.events.toList, d.log⟩

/-- The program at the origin, without sizes. -/
def unplaced (p : Performance) : Performance :=
  { p with widget := ⟨0, 0⟩, container := ⟨0, 0⟩, start := .plain 0 0 }

/-- The events that the program may wait for. -/
def waitingFor (p : Performance) : Logged (Table Unit) :=
  let d := DryRun.of p.program p.unplaced.env
  ⟨d.waits, d.log⟩

end Performance
end Choreography
