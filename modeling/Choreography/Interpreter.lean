import Choreography.Movement
import Choreography.Settings

/-! # Running a program

A machine walks the tree of statements with a stack of activations, one for each block that has
been entered. `advance` executes one statement or ends one block; `run` repeats it until the stack
is empty or a limit is met, and always halts: a statement and a pass of a long loop use up a step,
and anything else takes something off the stack. -/
namespace Choreography

/-- How many passes a loop makes. The passes of a short loop are not counted as steps; a long one
may have no end. -/
inductive PassCount where
  | short (total : Int)
  | long (total : Option Int)
deriving DecidableEq, Repr

inductive ActivationKind where
  | block
  | segment (name : String) (start : Nat)
  | loop (site : Site) (passes : PassCount)
deriving DecidableEq, Repr

/-- A block that has been entered, and the index of its next statement. -/
structure Activation where
  site : Site
  block : Block
  index : Nat
  kind : ActivationKind

def Activation.isLoop (a : Activation) : Bool :=
  match a.kind with
  | .loop .. => true
  | _ => false

/-- A sequence that has been defined: its statements and their site. -/
structure Sequence where
  site : Site
  body : Block

structure Machine where
  recorder : Recorder
  /-- The open activations, the innermost first. -/
  stack : List Activation
  sequences : Table Sequence
  /-- How many passes each loop has ended since it was last entered. -/
  counters : List (Site × Int)
  /-- The places at the latest ends of passes, the oldest first. -/
  recent : List (Int × Int)
  steps : Nat

/-- Why a run ends. -/
inductive Stop where
  | completed
  | stepLimit
  | frameLimit
  | stabilized
  | tooDeep
deriving DecidableEq, Repr

inductive Outcome where
  | running (m : Machine)
  | stopped (m : Machine) (why : Stop)

namespace Machine

def mapRecorder (m : Machine) (f : Recorder → Recorder) : Machine :=
  match m with
  | ⟨r, stack, sequences, counters, recent, steps⟩ =>
      ⟨f r, stack, sequences, counters, recent, steps⟩

/-- The name of the innermost open segment. -/
def activeSegment : List Activation → Option String
  | [] => none
  | a :: below =>
      match a.kind with
      | .segment name _ => some name
      | _ => activeSegment below

/-- What a run records when a block is left. -/
def close (a : Activation) (r : Recorder) : Recorder :=
  match a.kind with
  | .segment name start => r.closeSpan name start
  | _ => r

/-- Leaves the stack as it is given and names frames after its innermost segment. -/
def withStack (m : Machine) (stack : List Activation) : Machine :=
  { m with stack := stack }.mapRecorder (·.setSegment (activeSegment stack))

/-- Closes activations up to the nearest loop, whose place and all below `resume` gives anew. -/
def unwindTo (resume : Activation → List Activation → List Activation) (stack : List Activation)
    (r : Recorder) : List Activation × Recorder :=
  match stack with
  | [] => ([], r)
  | a :: below => if a.isLoop then (resume a below, r) else unwindTo resume below (close a r)

/-- Leaves a loop. -/
def leaveLoop (_ : Activation) (below : List Activation) : List Activation := below

/-- Ends the pass of a loop. -/
def endPass (a : Activation) (below : List Activation) : List Activation :=
  { a with index := a.block.length } :: below

def unwind (m : Machine) (resume : Activation → List Activation → List Activation) : Machine :=
  match m with
  | ⟨r, stack, sequences, counters, recent, steps⟩ =>
      let (stack, r) := unwindTo resume stack r
      ⟨r.setSegment (activeSegment stack), stack, sequences, counters, recent, steps⟩

/-- Enters a block, if the stack is not as deep as it may be. -/
def enter (settings : EngineSettings) (m : Machine) (a : Activation) : Outcome :=
  if settings.maxFrameDepth ≤ m.stack.length then .stopped m .tooDeep
  else .running { m with stack := a :: m.stack }

/-- The branch whose condition holds first, with its index. -/
def chooseBranch (env : Env) (i : Nat) : List Branch → Option (Nat × Block)
  | [] => none
  | b :: rest =>
      if env.evalCondition b.condition then some (i, b.body) else chooseBranch env (i + 1) rest

/-- The faults of the conditions that are evaluated to choose a branch. -/
def branchFaults (env : Env) : List Branch → List Notice
  | [] => []
  | b :: rest =>
      env.faults b.condition ++ if env.evalCondition b.condition then [] else branchFaults env rest

/-- The number of passes of a loop that is entered: none for a loop without end. -/
def total? (env : Env) : LoopCount → Option (Option Int)
  | .infinite => some none
  | .times e => let n := env.evalInteger e; if n ≤ 0 then none else some (some n)

def passFaults (env : Env) : LoopCount → List Notice
  | .infinite => []
  | .times e => env.evalIntegerFaults e

/-- A loop is short if its count is within the limit for unrolling. -/
def passCount (settings : EngineSettings) : Option Int → PassCount
  | none => .long none
  | some total => if total ≤ settings.loopUnrollLimit then .short total else .long (some total)

/-- The first long loop marks the frame at which the timeline starts over. -/
def markLoopStart (passes : PassCount) (r : Recorder) : Recorder :=
  match passes with
  | .short _ => r
  | .long _ => if r.loopStart.isNone then { r with loopStart := some r.frames.size } else r

def enterLoop (settings : EngineSettings) (m : Machine) (site : Site) (body : Block)
    (total : Option Int) : Outcome :=
  let passes := passCount settings total
  let m := { m with counters := Assoc.assign site 0 m.counters }
  (m.mapRecorder (markLoopStart passes)).enter settings ⟨site, body, 0, .loop site passes⟩

/-- Executes the statement at a site. -/
def dispatch (settings : EngineSettings) (m : Machine) (site : Site) (s : Statement) : Outcome :=
  match s with
  | .move motion => .running (m.mapRecorder (Movement.move motion))
  | .moveTo start finish step interval =>
      .running (m.mapRecorder (Movement.moveTo start finish step interval))
  | .pause duration => .running (m.mapRecorder (Movement.pause duration))
  | .resetPosition => .running (m.mapRecorder Movement.resetPosition)
  | .loop count body =>
      let total := total? m.recorder.env count
      let m := m.mapRecorder fun r => r.note (passFaults r.env count)
      match total with
      | none => .running m
      | some total => m.enterLoop settings site body total
  | .conditional branches otherwise =>
      let (i, body) :=
        (chooseBranch m.recorder.env 0 branches).getD (branches.length, otherwise)
      let m := m.mapRecorder fun r => r.note (branchFaults r.env branches)
      if body.isEmpty then .running m else m.enter settings ⟨i :: site, body, 0, .block⟩
  | .breakLoop =>
      if m.stack.any Activation.isLoop then .running (m.unwind leaveLoop)
      else .running (m.mapRecorder (·.note [.strayBreak]))
  | .continueLoop =>
      if m.stack.any Activation.isLoop then .running (m.unwind endPass)
      else .running (m.mapRecorder (·.note [.strayContinue]))
  | .sync event => .running (m.mapRecorder (Movement.sync event))
  | .waitFor event maxTicks => .running (m.mapRecorder (Movement.waitFor event maxTicks))
  | .scrollClip motion => .running (m.mapRecorder (Movement.scrollClip site motion))
  | .scrollLoop motion => .running (m.mapRecorder (Movement.scrollLoop site motion))
  | .scrollBounce motion => .running (m.mapRecorder (Movement.scrollBounce motion))
  | .slide motion => .running (m.mapRecorder (Movement.slide motion))
  | .define name body => .running { m with sequences := m.sequences.insert name ⟨site, body⟩ }
  | .call name =>
      match m.sequences.find? name with
      | some sequence => m.enter settings ⟨sequence.site, sequence.body, 0, .block⟩
      | none => .running (m.mapRecorder (·.note [.undefinedSequence name]))
  | .period ticks => .running (m.mapRecorder (Movement.declarePeriod ticks))
  | .segment name body =>
      match m.enter settings ⟨site, body, 0, .segment name m.recorder.frames.size⟩ with
      | .running m => .running (m.withStack m.stack)
      | .stopped m why => .stopped m why

/-- The remembered places after a pass has ended at a place. -/
def remember (settings : EngineSettings) (recent : List (Int × Int)) (place : Int × Int) :
    List (Int × Int) :=
  (if max 1 settings.stabilizationWindow ≤ recent.length then recent.drop 1 else recent) ++ [place]

def hasSettled (settings : EngineSettings) (recent : List (Int × Int)) (place : Int × Int) : Bool :=
  settings.stabilizationRepeats ≤ recent.count place

/-- Passes that a loop has ended since it was last entered. -/
def counter (m : Machine) (site : Site) : Int := (Assoc.find? site m.counters).getD 0

/-- Starts the next pass of the loop on top of the stack or leaves the loop. -/
def nextPass (m : Machine) (top : Activation) (below : List Activation) (again : Bool) : Machine :=
  if again then { m with stack := { top with index := 0 } :: below } else { m with stack := below }

/-- Counts a pass of a long loop as a step. The run ends if such passes keep ending at one place. -/
def countPass (settings : EngineSettings) (m : Machine) : Machine × Bool :=
  let m := { m with steps := m.steps + 1 }
  if settings.stabilizationRepeats = 0 then (m, false)
  else
    let place := m.recorder.current.coords
    let recent := remember settings m.recent place
    ({ m with recent := recent }, hasSettled settings recent place)

/-- Ends a pass of the loop on top of the stack. -/
def finishPass (settings : EngineSettings) (m : Machine) (top : Activation)
    (below : List Activation) (site : Site) (passes : PassCount) : Outcome :=
  let count := m.counter site + 1
  let m := { m with counters := Assoc.assign site count m.counters }
  match passes with
  | .short total => .running (m.nextPass top below (count < total))
  | .long total =>
      let (m, settled) := m.countPass settings
      if settled then .stopped m .stabilized
      else .running (m.nextPass top below (total.all (count < ·)))

/-- Leaves the block on top of the stack, or ends a pass if it is the body of a loop. -/
def finishBlock (settings : EngineSettings) (m : Machine) (top : Activation)
    (below : List Activation) : Outcome :=
  match top.kind with
  | .loop site passes => m.finishPass settings top below site passes
  | _ => .running ((m.mapRecorder (close top)).withStack below)

/-- Executes the next statement of the block on top of the stack, or leaves the block at its end. -/
def turn (settings : EngineSettings) (m : Machine) (top : Activation) (below : List Activation) :
    Outcome :=
  match top.block[top.index]? with
  | some s =>
      let m := { m with
        stack := { top with index := top.index + 1 } :: below
        steps := m.steps + 1 }
      match m.dispatch settings (top.index :: top.site) s with
      | .running m => .running (m.mapRecorder Recorder.follow)
      | .stopped m why => .stopped m why
  | none => m.finishBlock settings top below

/-- One turn of the machine, unless the program is over or a limit is met. -/
def advance (settings : EngineSettings) (limit : Nat) (m : Machine) : Outcome :=
  match m.stack with
  | [] => .stopped m .completed
  | top :: below =>
      if limit ≤ m.steps then .stopped m .stepLimit
      else if limit ≤ m.recorder.frames.size then .stopped m .frameLimit
      else m.turn settings top below

@[simp] theorem stack_mapRecorder (m : Machine) (f : Recorder → Recorder) :
    (m.mapRecorder f).stack = m.stack := rfl

@[simp] theorem counters_mapRecorder (m : Machine) (f : Recorder → Recorder) :
    (m.mapRecorder f).counters = m.counters := rfl

@[simp] theorem steps_withStack (m : Machine) (stack : List Activation) :
    (m.withStack stack).steps = m.steps := rfl

@[simp] theorem stack_withStack (m : Machine) (stack : List Activation) :
    (m.withStack stack).stack = stack := rfl

@[simp] theorem counters_withStack (m : Machine) (stack : List Activation) :
    (m.withStack stack).counters = m.counters := rfl

@[simp] theorem steps_unwind (m : Machine)
    (resume : Activation → List Activation → List Activation) :
    (m.unwind resume).steps = m.steps := rfl

theorem steps_of_enter {settings : EngineSettings} {m m' : Machine} {a : Activation}
    (h : m.enter settings a = .running m') : m'.steps = m.steps := by
  simp only [enter] at h
  split at h
  · cases h
  · cases h
    rfl

/-- Executing a statement does not count steps; the machine's turn does. -/
theorem steps_of_dispatch {settings : EngineSettings} {m m' : Machine} {site : Site}
    {s : Statement} (h : m.dispatch settings site s = .running m') : m'.steps = m.steps := by
  cases s with
  | loop count body =>
    simp only [dispatch] at h
    split at h
    · cases h
      rfl
    · unfold enterLoop at h
      exact (steps_of_enter h).trans rfl
  | conditional branches otherwise =>
    simp only [dispatch] at h
    split at h
    · cases h
      rfl
    · exact (steps_of_enter h).trans rfl
  | breakLoop =>
    simp only [dispatch] at h
    split at h <;> cases h <;> rfl
  | continueLoop =>
    simp only [dispatch] at h
    split at h <;> cases h <;> rfl
  | call name =>
    simp only [dispatch] at h
    split at h
    · exact steps_of_enter h
    · cases h
      rfl
  | segment name body =>
    simp only [dispatch] at h
    split at h
    · rename_i m'' hm
      cases h
      exact (steps_withStack m'' m''.stack).trans (steps_of_enter hm)
    · cases h
  | _ =>
    simp only [dispatch] at h
    cases h
    rfl

/-- How many turns an activation may take without using up a step. -/
def rank (counters : List (Site × Int)) (a : Activation) : Nat :=
  match a.kind with
  | .loop site (.short total) => 1 + (total - (Assoc.find? site counters).getD 0).toNat
  | _ => 1

def totalRank (counters : List (Site × Int)) : List Activation → Nat
  | [] => 0
  | a :: below => rank counters a + totalRank counters below

/-- How many turns the run may still take without using up a step. -/
def slack (m : Machine) : Nat := totalRank m.counters m.stack

theorem rank_pos (counters : List (Site × Int)) (a : Activation) : 0 < rank counters a := by
  simp only [rank]
  split <;> omega

theorem rank_assign_le (counters : List (Site × Int)) (site : Site) (a : Activation) :
    rank (Assoc.assign site ((Assoc.find? site counters).getD 0 + 1) counters) a
      ≤ rank counters a := by
  simp only [rank]
  split
  · rename_i s total _
    by_cases h : s = site
    · subst h
      simp
      omega
    · simp [Assoc.find?_assign_ne _ _ h]
  · omega

theorem totalRank_assign_le (counters : List (Site × Int)) (site : Site)
    (stack : List Activation) :
    totalRank (Assoc.assign site ((Assoc.find? site counters).getD 0 + 1) counters) stack
      ≤ totalRank counters stack := by
  induction stack with
  | nil => simp [totalRank]
  | cons a below ih =>
    have := rank_assign_le counters site a
    simp only [totalRank]
    omega

@[simp] theorem steps_nextPass (m : Machine) (top : Activation) (below : List Activation)
    (again : Bool) : (m.nextPass top below again).steps = m.steps := by
  cases again <;> rfl

theorem steps_countPass (settings : EngineSettings) (m : Machine) :
    (m.countPass settings).1.steps = m.steps + 1 := by
  simp only [countPass]
  split <;> rfl

/-- Ending a block uses up a step or some of the slack. -/
theorem finishBlock_decreases {settings : EngineSettings} {m m' : Machine} {top : Activation}
    {below : List Activation} (hs : m.stack = top :: below)
    (h : m.finishBlock settings top below = .running m') :
    m'.steps = m.steps + 1 ∨ (m'.steps = m.steps ∧ m'.slack < m.slack) := by
  have hpos := rank_pos m.counters top
  simp only [finishBlock] at h
  split at h
  · rename_i site passes hk
    simp only [finishPass] at h
    have hle := totalRank_assign_le m.counters site below
    cases passes with
    | short total =>
      cases h
      refine Or.inr ⟨by simp, ?_⟩
      by_cases hlt : (Assoc.find? site m.counters).getD 0 + 1 < total
      · have htop : rank (Assoc.assign site ((Assoc.find? site m.counters).getD 0 + 1) m.counters)
            { top with index := 0 } < rank m.counters top := by
          simp only [rank, hk, Assoc.find?_assign_self, Option.getD_some]
          omega
        simp only [slack, hs, counter, nextPass, hlt, decide_true, if_true, totalRank]
        omega
      · simp only [slack, hs, counter, nextPass, hlt, decide_false, Bool.false_eq_true, if_false,
          totalRank]
        omega
    | long total =>
      simp only at h
      split at h
      · cases h
      · cases h
        exact Or.inl ((steps_nextPass ..).trans (steps_countPass ..))
  · cases h
    refine Or.inr ⟨rfl, ?_⟩
    simp only [slack, hs, counters_withStack, counters_mapRecorder, stack_withStack,
      totalRank]
    omega

/-- A turn that does not end the run uses up a step or some of the slack. -/
theorem advance_decreases {settings : EngineSettings} {limit : Nat} {m m' : Machine}
    (h : m.advance settings limit = .running m') :
    (m.steps < limit ∧ m'.steps = m.steps + 1) ∨ (m'.steps = m.steps ∧ m'.slack < m.slack) := by
  simp only [advance] at h
  split at h
  · cases h
  · rename_i top below hs
    split at h
    · cases h
    · split at h
      · cases h
      · simp only [turn] at h
        split at h
        · split at h
          · rename_i hd
            cases h
            exact Or.inl ⟨by omega, steps_of_dispatch hd⟩
          · cases h
        · rcases finishBlock_decreases hs h with h | h
          · exact Or.inl ⟨by omega, h⟩
          · exact Or.inr h

/-- Advances the machine until it stops. -/
def run (settings : EngineSettings) (limit : Nat) (m : Machine) : Machine × Stop :=
  match _h : m.advance settings limit with
  | .stopped m why => (m, why)
  | .running m => run settings limit m
termination_by (limit - m.steps, m.slack)
decreasing_by
  rcases advance_decreases _h with h | h
  · exact Prod.Lex.left _ _ (by omega)
  · rw [h.1]
    exact Prod.Lex.right _ h.2

theorem run_of_stopped {settings : EngineSettings} {limit : Nat} {m m' : Machine} {why : Stop}
    (h : m.advance settings limit = .stopped m' why) : m.run settings limit = (m', why) := by
  rw [run]
  split <;> rename_i hm <;> rw [h] at hm
  · cases hm
    rfl
  · cases hm

theorem run_of_running {settings : EngineSettings} {limit : Nat} {m m' : Machine}
    (h : m.advance settings limit = .running m') :
    m.run settings limit = m'.run settings limit := by
  rw [run]
  split <;> rename_i hm <;> rw [h] at hm
  · cases hm
  · cases hm
    rfl

/-- A machine at the start of a program. -/
def start (p : Program) (r : Recorder) : Machine :=
  ⟨r, [⟨[], p.statements, 0, .block⟩], ∅, [], [], 0⟩

/-- Records the spans of the segments that an early stop has left open. -/
def closeAll (m : Machine) : Recorder := m.stack.foldl (fun r a => close a r) m.recorder

end Machine

/-- Everything that a timeline is generated from. -/
structure Performance where
  program : Program
  settings : EngineSettings
  widget : Size
  container : Size
  start : Frame
  /-- Ticks of events that are announced elsewhere. -/
  eventTicks : Table Nat
  /-- Values of names that the program does not define. -/
  source : String → Option Value

/-- A generated timeline, why generation stopped, and what was reported. -/
structure Generated where
  timeline : Timeline
  why : Stop
  log : Array Notice

namespace Performance

def env (p : Performance) : Env where
  x := p.start.x
  y := p.start.y
  width := p.widget.width
  height := p.widget.height
  containerWidth := p.container.width
  containerHeight := p.container.height
  constants := p.program.constants
  source := p.source

def limit (p : Performance) (maxSteps : Option Nat) : Nat :=
  max 1 (maxSteps.getD p.settings.maxSteps)

def recorder (p : Performance) : Recorder :=
  .start p.env p.eventTicks p.settings.maxPositions p.settings.smoothing

/-- The machine and the stop at the end of a run. -/
def outcome (p : Performance) (maxSteps : Option Nat) : Machine × Stop :=
  (Machine.start p.program p.recorder).run p.settings (p.limit maxSteps)

/-- The report on a run that was aborted. -/
def abortFaults (settings : EngineSettings) (why : Stop) (r : Recorder) : List Notice :=
  match why with
  | .tooDeep => [.tooDeep settings.maxFrameDepth r.frames.size]
  | _ => []

/-- The timeline of what a run has recorded. -/
def generated (p : Performance) (m : Machine) (why : Stop) : Generated :=
  let r := m.closeAll
  let r := r.note (abortFaults p.settings why r)
  let r := r.note r.periodFaults
  ⟨r.timeline p.start, why, r.log⟩

/-- Runs the program. A fault never keeps it from giving a timeline: the frames up to there are
kept, and a run without any shows the start. -/
def perform (p : Performance) (maxSteps : Option Nat) : Generated :=
  let (m, why) := p.outcome maxSteps
  p.generated m why

/-- What a run gives, for which room is made first; there is none without it. -/
def played? (p : Performance) (maxSteps : Option Nat) : Option Generated :=
  if p.settings.isRunnable then some (p.perform maxSteps) else none

end Performance
end Choreography
