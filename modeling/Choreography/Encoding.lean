import Choreography.Document
import Choreography.Program
import Choreography.Settings
import Choreography.Timeline

/-! # The document form of the data

How values, expressions, programs, frames and settings are written as documents. Every field is
written, except the marks and the segment name that a frame does not have. -/
namespace Choreography

/-- Data texts have no form for a number that is not finite; it is left open as null. -/
def Binary64.toDocument (x : Binary64) : Document := if x.isFinite then .float x else .null

def Value.toDocument : Value → Document
  | .bool b => .bool b
  | .int i => .ofInt i.toInt
  | .float x => x.toDocument
  | .str s => .string s

def Expr.toDocument : Expr → Document
  | .literal v => v.toDocument
  | .variable name => .object [("var", .string name)]
  | .negation e => .object [("not", e.toDocument)]
  | .binary op lhs rhs =>
      .object [("op", .string op.symbol), ("lhs", lhs.toDocument), ("rhs", rhs.toDocument)]

def Direction.toDocument (d : Direction) : Document := .string d.name

def Operator.toDocument (op : Operator) : Document := .string op.symbol

def Motion.toFields (m : Motion) : List (String × Document) :=
  [("direction", m.direction.toDocument), ("distance", m.distance.toDocument),
    ("step", m.step.toDocument), ("interval", m.interval.toDocument), ("gap", m.gap.toDocument),
    ("pause_at_ends", m.pauseAtEnds.toDocument)]

def Motion.toDocument (m : Motion) : Document := .object m.toFields

def PointExpr.toDocument (p : PointExpr) : Document :=
  .object [("x", p.x.toDocument), ("y", p.y.toDocument)]

def LoopCount.toDocument : LoopCount → Document
  | .infinite => .string "infinite"
  | .times e => .object [("times", e.toDocument)]

mutual

def Statement.toDocument (s : Statement) : Document :=
  .object (("type", .string s.kind) ::
    match s with
    | .move m => m.toFields
    | .moveTo start finish step interval =>
        [("from", start.toDocument), ("to", finish.toDocument), ("step", step.toDocument),
          ("interval", interval.toDocument)]
    | .pause duration => [("duration", duration.toDocument)]
    | .resetPosition => []
    | .loop count body => [("count", count.toDocument), ("body", .array (blockToDocuments body))]
    | .conditional branches otherwise =>
        [("branches", .array (branchesToDocuments branches)),
          ("else", .array (blockToDocuments otherwise))]
    | .breakLoop => []
    | .continueLoop => []
    | .sync event => [("event", .string event)]
    | .waitFor event maxTicks =>
        [("event", .string event), ("max_ticks", maxTicks.toDocument)]
    | .scrollClip m => m.toFields
    | .scrollLoop m => m.toFields
    | .scrollBounce m => m.toFields
    | .slide m => m.toFields
    | .define name body => [("name", .string name), ("body", .array (blockToDocuments body))]
    | .call name => [("name", .string name)]
    | .period ticks => [("ticks", ticks.toDocument)]
    | .segment name body => [("name", .string name), ("body", .array (blockToDocuments body))])

def blockToDocuments : List Statement → List Document
  | [] => []
  | s :: rest => s.toDocument :: blockToDocuments rest

def branchesToDocuments : List Branch → List Document
  | [] => []
  | .mk condition body :: rest =>
      .object [("condition", condition.toDocument), ("body", .array (blockToDocuments body))] ::
        branchesToDocuments rest

end

/-- A table as an object. -/
def Table.toDocument (f : β → Document) (t : Table β) : Document :=
  .object (t.entries.map fun e => (e.1, f e.2))

def Program.toDocument (p : Program) : Document :=
  .object [("statements", .array (blockToDocuments p.statements)),
    ("variables", p.constants.toDocument Value.toDocument)]

def Frame.toDocument (f : Frame) : Document :=
  let mark (name : String) (set : Bool) : List (String × Document) :=
    if set then [(name, .bool true)] else []
  .object ([("x", .ofInt f.x), ("y", .ofInt f.y)] ++ mark "pause" f.pause ++
    mark "pause_end" f.pauseEnd ++ mark "terminal" f.terminal ++ mark "reset" f.reset ++
    (f.segment.map fun s => ("segment_name", .string s)).toList)

def Size.toDocument (s : Size) : Document :=
  .object [("width", .ofInt s.width), ("height", .ofInt s.height)]

def EngineSettings.toDocument (e : EngineSettings) : Document :=
  .object [("max_steps", .natural e.maxSteps), ("max_positions", .natural e.maxPositions),
    ("stabilization_repeats", .natural e.stabilizationRepeats),
    ("stabilization_window", .natural e.stabilizationWindow),
    ("loop_unroll_limit", .ofInt e.loopUnrollLimit),
    ("max_frame_depth", .natural e.maxFrameDepth), ("smoothing", .bool e.smoothing)]

def Settings.toDocument (s : Settings) : Document :=
  .object [("general", .object [("log_level", .string s.general.logLevel)]),
    ("engine", s.engine.toDocument),
    ("coordinator", .object [("iteration_factor", .natural s.coordinator.iterationFactor)])]

end Choreography
