import Choreography.FileStore

/-! # Failures

What the library reports instead of a result. Running a program never fails; reading data, files
and settings may, and so may the change of an unknown widget. -/
namespace Choreography

/-- Why a scene is refused. -/
inductive SceneFault where
  | invalidToml
  | emptyId
  | duplicateId (id : String)
deriving DecidableEq, Repr

def SceneFault.message : SceneFault → String
  | .invalidToml => "Invalid TOML"
  | .emptyId => "widget with empty id"
  | .duplicateId id => "duplicate widget id '" ++ id ++ "'"

inductive Failure where
  | configuration
  | inputOutput (fault : FileFault)
  | json
  | scene (fault : SceneFault)
  | unknownWidget (id : String)
deriving DecidableEq, Repr

def Failure.message : Failure → String
  | .configuration => "Configuration error"
  | .inputOutput fault => "IO error: " ++ fault.message
  | .json => "JSON error"
  | .scene fault => "Scene error: " ++ fault.message
  | .unknownWidget id => "Widget not found: " ++ id

end Choreography
