import Choreography.AnimatedWidget
import Choreography.Decoding
import Choreography.Diagnostics
import Choreography.Encoding
import Choreography.Json
import Choreography.Toml

/-! # Scenes

A scene lists widgets with their sizes and programs. It is accepted if every widget has a name of
its own. -/
namespace Choreography

structure SceneWidget where
  id : String
  width : Int
  height : Int
  container : Size
  start : Frame
  constants : Table Value
  statements : Block

structure Scene where
  widgets : List SceneWidget

namespace SceneWidget

def size (w : SceneWidget) : Size := ⟨w.width, w.height⟩

def program (w : SceneWidget) : Program := ⟨w.statements, w.constants⟩

/-- The run of the widget's program; only the place of its start counts. -/
def performance (w : SceneWidget) (settings : EngineSettings) : Performance where
  program := w.program
  settings := settings
  widget := w.size
  container := w.container
  start := w.start.unmarked
  eventTicks := ∅
  source := fun _ => none

def animated (w : SceneWidget) (settings : EngineSettings) : AnimatedWidget :=
  .of (w.performance settings)

def ofDocument (surplus : Bool) (d : Document) : Option SceneWidget := do
  let r ← d.record? ["id", "width", "height", "container", "start", "variables", "program"] surplus
  let id ← r.required "id" Document.string?
  let width ← r.required "width" (Document.signed? 32)
  let height ← r.required "height" (Document.signed? 32)
  let container ← r.required "container" (Size.ofDocument surplus)
  let start ← r.optional "start" (Frame.ofDocument surplus) (.plain 0 0)
  let constants ← r.optional "variables" Value.tableOfDocument ∅
  let statements ← r.optional "program" Statement.blockOfDocument []
  some ⟨id, width, height, container, start, constants, statements⟩

def toDocument (w : SceneWidget) : Document :=
  .object [("id", .string w.id), ("width", .ofInt w.width), ("height", .ofInt w.height),
    ("container", w.container.toDocument), ("start", w.start.toDocument),
    ("variables", w.constants.toDocument Value.toDocument),
    ("program", .array (blockToDocuments w.statements))]

end SceneWidget

namespace Scene

def ofDocument (surplus : Bool) (d : Document) : Option Scene := do
  let r ← d.record? ["widgets"] surplus
  let widgets ← r.optional "widgets"
    (fun d => d.array?.bind (·.mapM (SceneWidget.ofDocument surplus))) []
  some ⟨widgets⟩

def toDocument (s : Scene) : Document :=
  .object [("widgets", .array (s.widgets.map SceneWidget.toDocument))]

/-- The first fault among the names of widgets, given those seen before. -/
def idFault? (seen : List String) : List SceneWidget → Option SceneFault
  | [] => none
  | w :: rest =>
      if w.id = "" then some .emptyId
      else if seen.contains w.id then some (.duplicateId w.id)
      else idFault? (w.id :: seen) rest

/-- Accepts a scene whose widgets have names of their own. -/
def checked (s : Scene) : Except Failure Scene :=
  match idFault? [] s.widgets with
  | some fault => .error (.scene fault)
  | none => .ok s

def ofJson (text : String) : Except Failure Scene :=
  match (Json.parse? text).bind (ofDocument false) with
  | some s => s.checked
  | none => .error .json

def ofToml (text : String) : Except Failure Scene :=
  match (Toml.parse? text).bind (ofDocument true) with
  | some s => s.checked
  | none => .error (.scene .invalidToml)

def widget? (s : Scene) (id : String) : Option SceneWidget := s.widgets.find? fun w => w.id == id

/-- The warnings on each program, under the names of the widgets. -/
def warnings (s : Scene) : List (String × Warning) :=
  s.widgets.flatMap fun w => (Diagnostics.ofProgram w.program).map fun warning => (w.id, warning)

/-- The faults of reading the literal arguments that the warnings are about. -/
def warningFaults (s : Scene) : List Notice :=
  s.widgets.flatMap fun w => Diagnostics.programFaults w.program

/-- A coordinator of all widgets of the scene. -/
def coordinator (s : Scene) (settings : Settings) : Logged (Coordinator AnimatedWidget) :=
  (Coordinator.empty settings.coordinator).registerEach
    (s.widgets.map fun w => (w.id, w.animated settings.engine))

/-- The coordinator of the scene after a pass over all widgets. Room is made before the run of each
of them, and without it there is no such coordinator. -/
def played? (s : Scene) (settings : Settings) : Option (Coordinator AnimatedWidget) :=
  if s.widgets.all fun w => (w.performance settings.engine).settings.isRunnable then
    some (s.coordinator settings).value.resolve.value.1
  else none

end Scene
end Choreography
