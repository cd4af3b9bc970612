import Choreography.Decoding
import Choreography.Encoding
import Choreography.Failure
import Choreography.Toml
import Choreography.TomlText

/-! # Settings in files

Settings are kept as TOML text. A missing file stands for the defaults, and so does every field
that a file leaves out. -/
namespace Choreography.SettingsFile
variable {m : Type → Type} [Monad m] [FileStore m]

/-- A leading tilde stands for the home directory. -/
def expandTilde (home path : String) : String :=
  if path = "~" then home
  else if path.startsWith "~/" then FilePath.join home (path.drop 2).toString
  else path

/-- Where the settings are kept if no place is given. -/
def defaultPath (home : String) : String :=
  FilePath.join (FilePath.join (FilePath.join home ".config") "marquee") "config.toml"

def parse (text : String) : Except Failure Settings :=
  match (Toml.parse? text).bind (Settings.ofDocument true) with
  | some s => .ok s
  | none => .error .configuration

/-- Settings with an unsigned number that no signed one of sixty-four bits equals have no text. -/
def render (s : Settings) : Except Failure String :=
  match TomlText.render? s.toDocument with
  | some text => .ok text
  | none => .error .configuration

/-- Raises a fault of the file store as a failure. -/
def lift (r : Except FileFault α) : Except Failure α :=
  match r with
  | .ok a => .ok a
  | .error fault => .error (.inputOutput fault)

def load (path : String) : m (Except Failure Settings) := do
  let path := expandTilde (← FileStore.home) path
  if ← FileStore.isPresent path then
    let text ← FileStore.read path
    return (lift text).bind parse
  else return .ok {}

/-- Makes the directory of a path, if the path has a parent. -/
def prepare (path : String) : m (Except FileFault Unit) :=
  match FilePath.parent? path with
  | some parent => FileStore.createDirectories parent
  | none => pure (.ok ())

/-- Writes settings to a file in a directory that is made if it is missing. -/
def save (s : Settings) (path : String) : m (Except Failure Unit) := do
  let path := expandTilde (← FileStore.home) path
  match lift (← prepare path) with
  | .error f => return .error f
  | .ok () =>
      match render s with
      | .error f => return .error f
      | .ok text => return lift (← FileStore.write path text)

end Choreography.SettingsFile
