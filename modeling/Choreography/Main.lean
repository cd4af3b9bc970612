import Choreography.CommandLine

/-! # The program

The command line on real files. -/
namespace Choreography

def FileFault.ofError : IO.Error → FileFault
  | .noFileOrDirectory .. => .notFound
  | .inappropriateType _ code reason =>
      if code = 20 then .notDirectory else if code = 21 then .isDirectory else .other reason
  | e => .other (toString e)

/-- Carries out an action on files and catches its fault. -/
def FileFault.attempt (action : IO α) : IO (Except FileFault α) := do
  match ← action.toBaseIO with
  | .ok a => return .ok a
  | .error e => return .error (.ofError e)

instance : FileStore IO where
  home := do return (← IO.getEnv "HOME").getD "."
  isPresent path := do return (← FileFault.attempt (IO.FS.realPath path)).isOk
  read path := FileFault.attempt (IO.FS.readFile path)
  createDirectories path :=
    if path.isEmpty then pure (.ok ()) else FileFault.attempt (IO.FS.createDirAll path)
  write path text := FileFault.attempt (IO.FS.writeFile path text)

end Choreography

def main (args : List String) : IO UInt32 := do
  let result ← Choreography.CommandLine.execute args
  IO.print result.stdout
  IO.eprint result.stderr
  return result.exit.toUInt32
