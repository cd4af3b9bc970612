import Choreography.Scene

/-! # Reports

What the command line prints about a scene: the resolved timelines, the declared events, and the
warnings. -/
namespace Choreography.Report

def line (s : String) : String := s ++ "\n"

/-- Right-aligned in five columns. -/
def column (n : Nat) : String :=
  let digits := toString n
  String.ofList (List.replicate (5 - digits.length) ' ') ++ digits

def point (x y : Int) : String := "(" ++ toString x ++ ", " ++ toString y ++ ")"

def marks (f : Frame) : List String :=
  (if f.pause then ["pause"] else []) ++ (if f.pauseEnd then ["pause_end"] else []) ++
    (if f.terminal then ["terminal"] else []) ++ (if f.reset then ["reset"] else [])

def frameLine (tick : Nat) (f : Frame) : String :=
  let segment :=
    match f.segment with
    | some name => " <" ++ name ++ ">"
    | none => ""
  line ("      " ++ column tick ++ ": " ++ point f.x f.y ++ segment ++ " " ++
    " ".intercalate (marks f))

/-- The first frames of a timeline, if some are asked for. -/
def frameLines (t : Timeline) : Option Nat → String
  | none => ""
  | some n =>
      String.join ((t.frames.toList.take n).zipIdx.map fun f => frameLine f.2 f.1)

def timeline (id : String) (t : Timeline) (frames : Option Nat) : String :=
  let period :=
    match t.period with
    | some p => toString p
    | none => "-"
  let last :=
    match t.last? with
    | some f => point f.x f.y
    | none => "-"
  line ("  " ++ id ++ " - " ++ toString t.length ++ " frames") ++
    line ("    Period: " ++ period ++ "  Loop start: " ++ toString t.loopStart) ++
    line ("    Pauses: " ++ toString t.pauseCount ++ "  Terminals: " ++ toString t.terminalCount) ++
    line ("    Final position: " ++ last) ++ frameLines t frames ++ line ""

def widget (frames : Option Nat) (id : String) (w : AnimatedWidget) : String :=
  match w.timeline with
  | some t => timeline id t frames
  | none => line ("  " ++ id ++ " - (not resolved)")

def summary (s : Summary) : String :=
  line ("Resolved " ++ toString s.computed.length ++ " widget(s) in " ++ toString s.iterations ++
    " iteration(s)") ++
    (if s.forced.isEmpty then "" else line ("  Cycles broken at: " ++ ", ".intercalate s.forced)) ++
    line ""

/-- Resolves a scene and describes every timeline. -/
def run (settings : Settings) (scene : Scene) (frames : Option Nat) : String :=
  if scene.widgets.isEmpty then line "Scene has no widgets."
  else
    let (c, s) := (scene.coordinator settings).value.resolve.value
    summary s ++ String.join (c.widgets.entries.map fun w => widget frames w.1 w.2)

def declared (id : String) (events : List SyncEvent) (waits : List String) : String :=
  line ("  " ++ id) ++
    (if events.isEmpty then line "    Emits: (none)"
      else String.join (events.map fun e =>
        line ("    Emits " ++ e.name ++ " at ~" ++ toString e.tick))) ++
    (if waits.isEmpty then "" else line ("    Waits for: " ++ ", ".intercalate waits)) ++ line ""

/-- The events that each widget declares and waits for. -/
def events (settings : Settings) (scene : Scene) : String :=
  if scene.widgets.isEmpty then line "Scene has no widgets."
  else
    String.join (scene.widgets.map fun w =>
      let p := w.performance settings.engine
      declared w.id p.syncEvents.value p.waitingFor.value.keys)

/-- The warnings on the programs of a scene. -/
def check (scene : Scene) : String :=
  let warnings := scene.warnings
  if warnings.isEmpty then
    line (toString scene.widgets.length ++ " widget(s), no warnings.")
  else
    line ("Warnings (" ++ toString warnings.length ++ "):") ++ line "" ++
      String.join (warnings.map fun w => line ("  " ++ w.1 ++ ": " ++ w.2.text))

end Choreography.Report
