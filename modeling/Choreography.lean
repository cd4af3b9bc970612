import Choreography.AnimatedWidget
import Choreography.Assoc
import Choreography.Binary64
import Choreography.Blank
import Choreography.CommandLine
import Choreography.Coordinator
import Choreography.Decimal
import Choreography.Decoding
import Choreography.Diagnostics
import Choreography.Document
import Choreography.Encoding
import Choreography.Evaluation
import Choreography.Expression
import Choreography.Extraction
import Choreography.Failure
import Choreography.FileStore
import Choreography.Interpreter
import Choreography.Json
import Choreography.Main
import Choreography.Moment
import Choreography.Movement
import Choreography.Notice
import Choreography.Program
import Choreography.Proofs.Additions
import Choreography.Proofs.Alignment
import Choreography.Proofs.Announcements
import Choreography.Proofs.AwaitedEvents
import Choreography.Proofs.Bounces
import Choreography.Proofs.CachedTimelines
import Choreography.Proofs.CallGraph
import Choreography.Proofs.Continuity
import Choreography.Proofs.CycleSearch
import Choreography.Proofs.DependencyOrder
import Choreography.Proofs.Dependents
import Choreography.Proofs.DryRuns
import Choreography.Proofs.Embedding
import Choreography.Proofs.Executions
import Choreography.Proofs.ExpressionForms
import Choreography.Proofs.FinalTicks
import Choreography.Proofs.Findings
import Choreography.Proofs.Footprints
import Choreography.Proofs.Freshness
import Choreography.Proofs.Histories
import Choreography.Proofs.Idempotence
import Choreography.Proofs.IndexMap
import Choreography.Proofs.Interpolation
import Choreography.Proofs.Journeys
import Choreography.Proofs.JsonText
import Choreography.Proofs.Limits
import Choreography.Proofs.Lockstep
import Choreography.Proofs.LoopPasses
import Choreography.Proofs.MachineIntegers
import Choreography.Proofs.MissedBodies
import Choreography.Proofs.Numerals
import Choreography.Proofs.Occurrences
import Choreography.Proofs.Operations
import Choreography.Proofs.Ownership
import Choreography.Proofs.Passes
import Choreography.Proofs.PausedRuns
import Choreography.Proofs.Playback
import Choreography.Proofs.Progress
import Choreography.Proofs.Recalculation
import Choreography.Proofs.Recording
import Choreography.Proofs.RegistrationOrder
import Choreography.Proofs.Resolution
import Choreography.Proofs.RoundTrip
import Choreography.Proofs.ScenePlay
import Choreography.Proofs.SceneText
import Choreography.Proofs.ScrollCycles
import Choreography.Proofs.Segments
import Choreography.Proofs.SmoothedRun
import Choreography.Proofs.SmoothedSpans
import Choreography.Proofs.Spans
import Choreography.Proofs.Stabilization
import Choreography.Proofs.StackMoves
import Choreography.Proofs.Structured
import Choreography.Proofs.StructuredRun
import Choreography.Proofs.Tables
import Choreography.Proofs.Truncation
import Choreography.Proofs.Turns
import Choreography.Proofs.Unrolling
import Choreography.Proofs.Updates
import Choreography.Proofs.Waiting
import Choreography.Proofs.Warnings
import Choreography.Quoted
import Choreography.Recorder
import Choreography.Report
import Choreography.Scene
import Choreography.Settings
import Choreography.SettingsFile
import Choreography.Smoothing
import Choreography.Table
import Choreography.Timeline
import Choreography.Toml
import Choreography.TomlText
import Choreography.Unprintable
import Choreography.Value
import Choreography.Proofs.Appending
import Choreography.Proofs.Expansions
import Choreography.Proofs.StraightLine
import Choreography.Proofs.CacheCoherence
import Choreography.Proofs.CycleFinding
import Choreography.Proofs.FileTrees
import Choreography.Proofs.SettingsFiles
import Choreography.Proofs.TomlStrings
import Choreography.Proofs.TomlSections
import Choreography.Proofs.SettingsText
import Choreography.Proofs.InitialSettings
import Choreography.Proofs.SavedSettings
import Choreography.Proofs.Preludes
import Choreography.Proofs.WholeSteps
import Choreography.Proofs.RepeatedMoves
import Choreography.Proofs.OpenLoops
import Choreography.Proofs.Settling
import Choreography.Proofs.ExactValues
