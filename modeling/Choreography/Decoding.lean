import Choreography.Document
import Choreography.Program
import Choreography.Settings
import Choreography.Timeline

/-! # Reading data from documents

A record is an object, whose unknown fields are skipped and whose known ones may not repeat, or an
array that lists its fields in order. Statements are told apart by their type, expressions by the
first form that fits. -/
namespace Choreography

/-- The known fields of a record that are present. -/
abbrev Record := List (String × Document)

namespace Record

def field? (r : Record) (name : String) : Option Document :=
  (List.find? (fun f => f.1 == name) r).map (·.2)

def required (r : Record) (name : String) (read : Document → Option α) : Option α :=
  (r.field? name).bind read

def optional (r : Record) (name : String) (read : Document → Option α) (default : α) : Option α :=
  match r.field? name with
  | some d => read d
  | none => some default

end Record

namespace Document

/-- The known fields of an object, if none of them repeats. -/
def pick? (names : List String) (fields : List (String × Document)) : Option Record :=
  match names with
  | [] => some []
  | name :: rest =>
      match fieldsNamed name fields with
      | [] => pick? rest fields
      | [d] => (pick? rest fields).map ((name, d) :: ·)
      | _ => none

/-- Reads a record with given fields. An array may list more than these if a surplus is allowed. -/
def record? (names : List String) (surplus : Bool) : Document → Option Record
  | .object fields => pick? names fields
  | .array items =>
      if items.length ≤ names.length || surplus then some (names.zip items) else none
  | _ => none

def bool? : Document → Option Bool
  | .bool b => some b
  | _ => none

def string? : Document → Option String
  | .string s => some s
  | _ => none

def array? : Document → Option (List Document)
  | .array items => some items
  | _ => none

/-- A signed integer of so many bits. -/
def signed? (bits : Nat) (d : Document) : Option Int := d.whole?.filter (isSigned bits)

/-- An unsigned integer of sixty-four bits. -/
def unsigned? (d : Document) : Option Nat :=
  match d.whole? with
  | some i => if 0 ≤ i ∧ i < Nat.pow 2 64 then some i.toNat else none
  | none => none

/-- The tag of a choice without arguments: a string, or an object that maps it to nothing. -/
def unitTag? (isNothing : Document → Bool) : Document → Option String
  | .string s => some s
  | .object [(name, d)] => if isNothing d then some name else none
  | _ => none

def isNull : Document → Bool
  | .null => true
  | _ => false

def isNullOrEmpty : Document → Bool
  | .null => true
  | .object [] => true
  | _ => false

end Document

open Document

/-- The first of the forms truth value, integer, number and string that fits. -/
def Value.ofDocument : Document → Option Value
  | .bool b => some (.bool b)
  | .natural n => if n < Nat.pow 2 63 then some (.int (.ofNat n)) else some (.float (.ofInt n))
  | .integer i => if isSigned 64 i then some (.int (.ofInt i)) else some (.float (.ofInt i))
  | .float x => some (.float x)
  | .string s => some (.str s)
  | _ => none

def Operator.ofDocument (d : Document) : Option Operator := (unitTag? isNull d).bind ofSymbol?

def Direction.ofName? (s : String) : Option Direction :=
  [Direction.left, .right, .up, .down].find? fun d => d.name == s

def Direction.ofDocument (isNothing : Document → Bool) (d : Document) : Option Direction :=
  (unitTag? isNothing d).bind ofName?

/-- Reads an expression that nests no deeper than `n`. -/
def Expr.ofDocumentIn : Nat → Document → Option Expr
  | 0, d => (Value.ofDocument d).map .literal
  | n + 1, d =>
      match d with
      | .object fields =>
          let asVariable := (pick? ["var"] fields).bind fun r =>
            (r.required "var" string?).map Expr.variable
          let asNegation := (pick? ["not"] fields).bind fun r =>
            (r.required "not" (ofDocumentIn n)).map Expr.negation
          let asBinary := (pick? ["op", "lhs", "rhs"] fields).bind fun r => do
            let op ← r.required "op" Operator.ofDocument
            let lhs ← r.required "lhs" (ofDocumentIn n)
            let rhs ← r.required "rhs" (ofDocumentIn n)
            some (Expr.binary op lhs rhs)
          asVariable.or (asNegation.or asBinary)
      | d => (Value.ofDocument d).map .literal

def Expr.ofDocument (d : Document) : Option Expr :=
  if d.isReadable then Expr.ofDocumentIn d.depth d else none

def Motion.fieldNames : List String :=
  ["direction", "distance", "step", "interval", "gap", "pause_at_ends"]

def Motion.ofRecord (isNothing : Document → Bool) (r : Record) : Option Motion := do
  let direction ← r.required "direction" (Direction.ofDocument isNothing)
  let distance ← r.optional "distance" Expr.ofDocument .zero
  let step ← r.optional "step" Expr.ofDocument .one
  let interval ← r.optional "interval" Expr.ofDocument .one
  let gap ← r.optional "gap" Expr.ofDocument .zero
  let pauseAtEnds ← r.optional "pause_at_ends" Expr.ofDocument .zero
  some ⟨direction, distance, step, interval, gap, pauseAtEnds⟩

def Motion.ofDocument (isNothing : Document → Bool) (d : Document) : Option Motion :=
  (d.record? fieldNames false).bind (ofRecord isNothing)

def PointExpr.ofDocument (d : Document) : Option PointExpr := do
  let r ← d.record? ["x", "y"] false
  let x ← r.required "x" Expr.ofDocument
  let y ← r.required "y" Expr.ofDocument
  some ⟨x, y⟩

def LoopCount.ofDocument (isNothing : Document → Bool) : Document → Option LoopCount
  | .string s => if s = "infinite" then some .infinite else none
  | .object [(name, d)] =>
      if name = "infinite" then (if isNothing d then some .infinite else none)
      else if name = "times" then (Expr.ofDocument d).map .times
      else none
  | _ => none

/-- The type of a statement and the other parts of its document. -/
def Document.tagged? : Document → Option (Document × Document)
  | .object fields =>
      match fieldsNamed "type" fields with
      | [tag] => some (tag, .object (fields.filter fun f => f.1 != "type"))
      | _ => none
  | .array (tag :: rest) => some (tag, .array rest)
  | _ => none

namespace Statement

/-- The types of statements in the order in which numbers stand for them. -/
def kinds : List String :=
  ["move", "move_to", "pause", "reset_position", "loop", "if", "break", "continue", "sync",
    "wait_for", "scroll_clip", "scroll_loop", "scroll_bounce", "slide", "define", "call",
    "period", "segment"]

/-- The type that a tag names; a number may stand for it where the statement is part of another. -/
def kind? (inner : Bool) : Document → Option String
  | .string s => some s
  | .natural n => if inner then kinds[n]? else none
  | _ => none

/-- A statement without arguments may have any fields but no further items. -/
def bare? (s : Statement) : Document → Option Statement
  | .object _ => some s
  | .array [] => some s
  | _ => none

def motion? (rest : Document) : Option Motion := Motion.ofDocument isNullOrEmpty rest

/-- Reads a statement of a given type from its other parts, given how to read a block and a list
of branches. -/
def ofParts (block : Document → Option Block) (branches : Document → Option (List Branch))
    (kind : String) (rest : Document) : Option Statement :=
  match kind with
  | "move" => (motion? rest).map .move
  | "scroll_clip" => (motion? rest).map .scrollClip
  | "scroll_loop" => (motion? rest).map .scrollLoop
  | "scroll_bounce" => (motion? rest).map .scrollBounce
  | "slide" => (motion? rest).map .slide
  | "reset_position" => bare? .resetPosition rest
  | "break" => bare? .breakLoop rest
  | "continue" => bare? .continueLoop rest
  | "move_to" => do
      let r ← rest.record? ["from", "to", "step", "interval"] false
      let start ← r.required "from" PointExpr.ofDocument
      let finish ← r.required "to" PointExpr.ofDocument
      let step ← r.optional "step" Expr.ofDocument .one
      let interval ← r.optional "interval" Expr.ofDocument .one
      some (.moveTo start finish step interval)
  | "pause" => do
      let r ← rest.record? ["duration"] false
      (r.required "duration" Expr.ofDocument).map .pause
  | "loop" => do
      let r ← rest.record? ["count", "body"] false
      let count ← r.required "count" (LoopCount.ofDocument isNullOrEmpty)
      let body ← r.optional "body" block []
      some (.loop count body)
  | "if" => do
      let r ← rest.record? ["branches", "else"] false
      let arms ← r.required "branches" branches
      let otherwise ← r.optional "else" block []
      some (.conditional arms otherwise)
  | "sync" => do
      let r ← rest.record? ["event"] false
      (r.required "event" string?).map .sync
  | "wait_for" => do
      let r ← rest.record? ["event", "max_ticks"] false
      let event ← r.required "event" string?
      let maxTicks ← r.required "max_ticks" Expr.ofDocument
      some (.waitFor event maxTicks)
  | "define" => do
      let r ← rest.record? ["name", "body"] false
      let name ← r.required "name" string?
      let body ← r.optional "body" block []
      some (.define name body)
  | "call" => do
      let r ← rest.record? ["name"] false
      (r.required "name" string?).map .call
  | "period" => do
      let r ← rest.record? ["ticks"] false
      (r.required "ticks" Expr.ofDocument).map .period
  | "segment" => do
      let r ← rest.record? ["name", "body"] false
      let name ← r.required "name" string?
      let body ← r.optional "body" block []
      some (.segment name body)
  | _ => none

def branch? (block : Document → Option Block) (d : Document) : Option Branch := do
  let r ← d.record? ["condition", "body"] false
  let condition ← r.required "condition" Expr.ofDocument
  let body ← r.optional "body" block []
  some (.mk condition body)

/-- Reads a statement that nests no deeper than `n`. -/
def ofDocumentIn (inner : Bool) : Nat → Document → Option Statement
  | 0, _ => none
  | n + 1, d => do
      let (tag, rest) ← d.tagged?
      let kind ← kind? inner tag
      let block (d : Document) : Option Block := d.array?.bind (·.mapM (ofDocumentIn true n))
      let branches (d : Document) : Option (List Branch) := d.array?.bind (·.mapM (branch? block))
      ofParts block branches kind rest

def ofDocument (d : Document) : Option Statement :=
  if d.isReadable then ofDocumentIn false d.depth d else none

def blockOfDocument (d : Document) : Option Block := d.array?.bind (·.mapM ofDocument)

end Statement

/-- Reads a table from an object; of several entries with one key the last is kept. -/
def Table.ofDocument (read : Document → Option β) : Document → Option (Table β)
  | .object fields => (fields.mapM fun f => (read f.2).map fun v => (f.1, v)).map ofList
  | _ => none

def Value.tableOfDocument (d : Document) : Option (Table Value) := Table.ofDocument ofDocument d

def Program.ofDocument (surplus : Bool) (d : Document) : Option Program := do
  let r ← d.record? ["statements", "variables"] surplus
  let statements ← r.optional "statements" Statement.blockOfDocument []
  let constants ← r.optional "variables" Value.tableOfDocument ∅
  some ⟨statements, constants⟩

def Size.ofDocument (surplus : Bool) (d : Document) : Option Size := do
  let r ← d.record? ["width", "height"] surplus
  let width ← r.required "width" (signed? 32)
  let height ← r.required "height" (signed? 32)
  some ⟨width, height⟩

/-- A name that may be null. -/
def optionalName : Document → Option (Option String)
  | .null => some none
  | .string s => some (some s)
  | _ => none

def Frame.ofDocument (surplus : Bool) (d : Document) : Option Frame := do
  let r ← d.record? ["x", "y", "pause", "pause_end", "terminal", "reset", "segment_name"] surplus
  let x ← r.required "x" (signed? 32)
  let y ← r.required "y" (signed? 32)
  let pause ← r.optional "pause" bool? false
  let pauseEnd ← r.optional "pause_end" bool? false
  let terminal ← r.optional "terminal" bool? false
  let reset ← r.optional "reset" bool? false
  let segment ← r.optional "segment_name" optionalName none
  some ⟨x, y, pause, pauseEnd, terminal, reset, segment⟩

def SyncEvent.ofDocument (d : Document) : Option SyncEvent := do
  let r ← d.record? ["name", "tick"] false
  let name ← r.required "name" string?
  let tick ← r.required "tick" unsigned?
  some ⟨name, tick⟩

def Span.ofDocument (d : Document) : Option Span := do
  let r ← d.record? ["name", "start", "end"] false
  let name ← r.required "name" string?
  let start ← r.required "start" unsigned?
  let finish ← r.required "end" unsigned?
  some ⟨name, start, finish⟩

def GeneralSettings.ofDocument (surplus : Bool) (d : Document) : Option GeneralSettings := do
  let default : GeneralSettings := {}
  let r ← d.record? ["log_level"] surplus
  let logLevel ← r.optional "log_level" string? default.logLevel
  some ⟨logLevel⟩

def EngineSettings.ofDocument (surplus : Bool) (d : Document) : Option EngineSettings := do
  let default : EngineSettings := {}
  let r ← d.record? ["max_steps", "max_positions", "stabilization_repeats",
    "stabilization_window", "loop_unroll_limit", "max_frame_depth", "smoothing"] surplus
  let maxSteps ← r.optional "max_steps" unsigned? default.maxSteps
  let maxPositions ← r.optional "max_positions" unsigned? default.maxPositions
  let repeats ← r.optional "stabilization_repeats" unsigned? default.stabilizationRepeats
  let window ← r.optional "stabilization_window" unsigned? default.stabilizationWindow
  let unroll ← r.optional "loop_unroll_limit" (signed? 64) default.loopUnrollLimit
  let maxFrameDepth ← r.optional "max_frame_depth" unsigned? default.maxFrameDepth
  let smoothing ← r.optional "smoothing" bool? default.smoothing
  some ⟨maxSteps, maxPositions, repeats, window, unroll, maxFrameDepth, smoothing⟩

def CoordinatorSettings.ofDocument (surplus : Bool) (d : Document) :
    Option CoordinatorSettings := do
  let default : CoordinatorSettings := {}
  let r ← d.record? ["iteration_factor"] surplus
  let factor ← r.optional "iteration_factor" unsigned? default.iterationFactor
  some ⟨factor⟩

def Settings.ofDocument (surplus : Bool) (d : Document) : Option Settings := do
  let r ← d.record? ["general", "engine", "coordinator"] surplus
  let general ← r.optional "general" (GeneralSettings.ofDocument surplus) {}
  let engine ← r.optional "engine" (EngineSettings.ofDocument surplus) {}
  let coordinator ← r.optional "coordinator" (CoordinatorSettings.ofDocument surplus) {}
  some ⟨general, engine, coordinator⟩

end Choreography
