/-! # Settings

The limits and options under which programs are run and widgets are coordinated, with their
defaults. -/
namespace Choreography

/-- Limits and options of the generation of one timeline. -/
structure EngineSettings where
  /-- Statements and passes of long loops that one run may execute. -/
  maxSteps : Nat := 1000
  maxPositions : Nat := 100000
  /-- How often one place must end a pass before a run counts as settled; zero for never. -/
  stabilizationRepeats : Nat := 5
  /-- How many ends of passes are remembered. -/
  stabilizationWindow : Nat := 10
  /-- The greatest count of a loop whose passes do not count as steps. -/
  loopUnrollLimit : Int := 10
  maxFrameDepth : Nat := 256
  smoothing : Bool := false
deriving DecidableEq, Repr, Inhabited

/-- Room for all remembered ends of passes, eight bytes for each, is made before a run; it must not
exceed what signed addresses of sixty-four bits can reach. -/
def EngineSettings.isRunnable (s : EngineSettings) : Bool :=
  s.stabilizationWindow * 8 < Nat.pow 2 63

structure GeneralSettings where
  logLevel : String := "info"
deriving DecidableEq, Repr, Inhabited

structure CoordinatorSettings where
  /-- Rounds of resolution that each widget is allowed for. -/
  iterationFactor : Nat := 2
deriving DecidableEq, Repr, Inhabited

structure Settings where
  general : GeneralSettings := {}
  engine : EngineSettings := {}
  coordinator : CoordinatorSettings := {}
deriving DecidableEq, Repr, Inhabited

end Choreography
