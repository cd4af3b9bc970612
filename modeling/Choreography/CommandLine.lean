import Choreography.Report
import Choreography.SettingsFile

/-! # The command line

Arguments are read from left to right into a request; settings are loaded before any command is
carried out. -/
namespace Choreography.CommandLine

inductive Command where
  | run (scene : String) (smooth : Bool) (frames : Option Nat)
  | events (scene : String)
  | check (scene : String)
  | init (force : Bool)
deriving DecidableEq, Repr

/-- What the arguments ask for. -/
inductive Request where
  | help
  | version
  | execute (config : Option String) (command : Command)
deriving DecidableEq, Repr

/-- The kinds of commands. -/
inductive Verb where
  | run | events | check | init
deriving DecidableEq, Repr

def Verb.ofName? (name : String) : Option Verb :=
  if name = "run" then some .run
  else if name = "events" then some .events
  else if name = "check" then some .check
  else if name = "init" then some .init
  else none

/-- The options, each at most once, that have been read at one level. -/
structure Options where
  config : Option String
  scene : Option String
  smooth : Bool
  frames : Option Nat
  force : Bool
deriving DecidableEq, Repr

def Options.none : Options := ⟨.none, .none, false, .none, false⟩

/-- The options that can be given. -/
inductive Flag where
  | config | smooth | frames | force | help | version
deriving DecidableEq, Repr

def Flag.takesValue : Flag → Bool
  | .config => true
  | .frames => true
  | _ => false

/-- Which options are known before a command and with each command. -/
def Flag.isKnown (verb : Option Verb) : Flag → Bool
  | .config => true
  | .help => true
  | .version => verb.isNone
  | .smooth => verb == some .run
  | .frames => verb == some .run
  | .force => verb == some .init

def Flag.ofLong? (name : String) : Option Flag :=
  if name = "config" then some .config
  else if name = "smooth" then some .smooth
  else if name = "frames" then some .frames
  else if name = "force" then some .force
  else if name = "help" then some .help
  else if name = "version" then some .version
  else none

def Flag.ofShort? (c : Char) : Option Flag :=
  if c = 'c' then some .config
  else if c = 'f' then some .frames
  else if c = 'h' then some .help
  else if c = 'V' then some .version
  else none

/-- An unsigned number of sixty-four bits, after an optional plus sign. -/
def count? (text : String) : Option Nat :=
  let digits :=
    match text.toList with
    | '+' :: rest => rest
    | chars => chars
  (Value.digits? digits).filter (· < Nat.pow 2 64)

/-- Takes in an option with its value; one that repeats is refused. -/
def Options.set? (o : Options) (flag : Flag) (value : String) : Option Options :=
  match flag with
  | .config =>
      if o.config.isSome || value = "" then .none else some { o with config := some value }
  | .frames =>
      match o.frames, count? value with
      | .none, some n => some { o with frames := some n }
      | _, _ => .none
  | .smooth => if o.smooth then .none else some { o with smooth := true }
  | .force => if o.force then .none else some { o with force := true }
  | _ => .none

/-- Whether an argument may be the value of an option before it. -/
def isValue (arg : String) : Bool := arg = "-" || !arg.startsWith "-"

/-- What an argument is. -/
inductive Word where
  | plain (text : String)
  /-- Two hyphens, after which all arguments are plain. -/
  | separator
  /-- An option with the value that is attached to it, if there is one. -/
  | option (flag : Flag) (value : Option String)
  | unknown
deriving DecidableEq, Repr

def longOption (name : List Char) : Word :=
  let head := String.ofList (name.takeWhile (· != '='))
  let tail := name.dropWhile (· != '=')
  match Flag.ofLong? head with
  | none => .unknown
  | some flag => .option flag (if tail.isEmpty then .none else some (String.ofList (tail.drop 1)))

/-- An option of one letter; an equals sign before its value may be left out. Those that take no
value end the reading of arguments, so that what follows their letter does not count. -/
def shortOption (c : Char) (rest : List Char) : Word :=
  match Flag.ofShort? c with
  | none => .unknown
  | some flag =>
      if flag.takesValue then
        .option flag (match rest with
          | [] => .none
          | '=' :: value => some (String.ofList value)
          | value => some (String.ofList value))
      else .option flag .none

def word (arg : String) : Word :=
  match arg.toList with
  | ['-', '-'] => .separator
  | '-' :: '-' :: name => longOption name
  | '-' :: c :: rest => shortOption c rest
  | _ => .plain arg

/-- The request that complete arguments make. -/
def request? (outer : Options) (verb : Option Verb) (inner : Options) : Option Request :=
  let config := inner.config.or outer.config
  match verb with
  | .none => .none
  | some .run => inner.scene.map fun s => .execute config (.run s inner.smooth inner.frames)
  | some .events => inner.scene.map fun s => .execute config (.events s)
  | some .check => inner.scene.map fun s => .execute config (.check s)
  | some .init => some (.execute config (.init inner.force))

/-- Takes in the scene of a command that has one. -/
def scene? (verb : Verb) (inner : Options) (text : String) : Option Options :=
  if verb = .init ∨ inner.scene.isSome ∨ text = "" then .none
  else some { inner with scene := some text }

/-- Plain arguments after two hyphens. -/
def plainArguments? (outer : Options) (verb : Option Verb) (inner : Options) :
    List String → Option Request
  | [] => request? outer verb inner
  | arg :: rest =>
      match verb with
      | .none => .none
      | some v => (scene? v inner arg).bind fun inner => plainArguments? outer verb inner rest

/-- A request for help on the whole or on one command. -/
def helpOn? : List String → Option Request
  | [] => some .help
  | [name] => if name = "help" ∨ (Verb.ofName? name).isSome then some .help else .none
  | _ => .none

/-- Reads arguments into a request; none is the answer to bad usage. -/
def arguments? (outer : Options) (verb : Option Verb) (inner : Options) :
    List String → Option Request
  | [] => request? outer verb inner
  | arg :: rest =>
      match word arg with
      | .separator => plainArguments? outer verb inner rest
      | .unknown => .none
      | .plain text =>
          match verb with
          | some v => (scene? v inner text).bind fun inner => arguments? outer verb inner rest
          | .none =>
              if text = "help" then helpOn? rest
              else
                match Verb.ofName? text with
                | some v => arguments? outer (some v) .none rest
                | .none => .none
      | .option flag value =>
          let put (o : Options) : Options × Options :=
            if verb.isNone then (o, inner) else (outer, o)
          let current := if verb.isNone then outer else inner
          if !flag.isKnown verb then .none
          else if flag.takesValue then
            match value, rest with
            | some value, rest =>
                (current.set? flag value).bind fun o => arguments? (put o).1 verb (put o).2 rest
            | .none, value :: rest =>
                if isValue value then
                  (current.set? flag value).bind fun o => arguments? (put o).1 verb (put o).2 rest
                else .none
            | .none, [] => .none
          else if value.isSome then .none
          else
            match flag with
            | .help => some .help
            | .version => some .version
            | flag =>
                (current.set? flag "").bind fun o => arguments? (put o).1 verb (put o).2 rest

def parse? (args : List String) : Option Request := arguments? .none .none .none args

/-- What a program leaves behind besides files. -/
structure Result where
  exit : Nat
  stdout : String
  stderr : String
deriving DecidableEq, Repr

def success (stdout : String) : Result := ⟨0, stdout, ""⟩

def failed (reason : String) : Result := ⟨1, "", "Error: " ++ reason ++ "\n"⟩

def usage : String :=
  "Usage: marquee [OPTIONS] <COMMAND>\n\nCommands: run, events, check, init, help\n"

variable {m : Type → Type} [Monad m] [FileStore m]

/-- Whether the name of a file ends in the extension for JSON, in any case. -/
def isJson (path : String) : Bool :=
  match FilePath.extension? path with
  | some extension => extension.map Char.toLower == "json"
  | .none => false

def readScene (path : String) : m (Except Failure Scene) := do
  let text ← FileStore.read path
  return (SettingsFile.lift text).bind (if isJson path then Scene.ofJson else Scene.ofToml)

/-- Reads a scene and reports on it. -/
def withScene (path : String) (report : Scene → String) : m Result := do
  match ← readScene path with
  | .ok scene => return success (report scene)
  | .error _ => return failed ("Failed to load scene " ++ path)

/-- Writes the default settings where there is no file yet, or in any case if forced. -/
def writeDefaults (config : Option String) (force : Bool) : m Result := do
  let target := config.getD (SettingsFile.defaultPath (← FileStore.home))
  if !force && (← FileStore.isPresent target) then
    return failed (target ++ " already exists (use --force to overwrite)")
  else
    match ← SettingsFile.save {} target with
    | .ok () => return success ("Wrote default configuration to " ++ target ++ "\n")
    | .error _ => return failed ("Failed to write " ++ target)

def smoothing (settings : Settings) (smooth : Bool) : Settings :=
  if smooth then { settings with engine := { settings.engine with smoothing := true } }
  else settings

def carryOut (settings : Settings) (config : Option String) : Command → m Result
  | .run scene smooth frames =>
      withScene scene fun s => Report.run (smoothing settings smooth) s frames
  | .events scene => withScene scene (Report.events settings)
  | .check scene => withScene scene Report.check
  | .init force => writeDefaults config force

/-- Carries out what the arguments ask for. -/
def execute (args : List String) : m Result := do
  match parse? args with
  | .none => return ⟨2, "", usage⟩
  | some .help => return success usage
  | some .version => return success "marquee 0.1.0\n"
  | some (.execute config command) =>
      let path := config.getD (SettingsFile.defaultPath (← FileStore.home))
      match ← SettingsFile.load path with
      | .ok settings => carryOut settings config command
      | .error f => return failed f.message

end Choreography.CommandLine
