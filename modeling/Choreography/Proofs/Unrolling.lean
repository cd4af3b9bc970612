import Choreography.Proofs.Findings
import Choreography.Proofs.StackMoves

/-! # Unrolled loops

Whether a loop is short enough for unrolling decides how its passes are counted and where the
timeline starts over, and nothing else. A machine is rolled up by taking all its loops as long ones
and by forgetting its steps and the mark of its first long loop. Without stabilization what a turn
does to the rolled machine depends on the rolled machine only, so runs with different limits for
unrolling agree until one of them is out of steps. -/
namespace Choreography

def EngineSettings.withUnrollLimit (settings : EngineSettings) (most : Int) : EngineSettings :=
  { settings with loopUnrollLimit := most }

namespace Recorder

def withoutStart (r : Recorder) : Recorder := { r with loopStart := none }

theorem unseen_withoutStart : Unseen withoutStart where
  push r f := by
    have hframes : r.withoutStart.frames = r.frames := rfl
    have hcap : r.withoutStart.maxPositions = r.maxPositions := rfl
    have hcapped : r.withoutStart.capped = r.capped := rfl
    unfold push
    rw [hframes, hcap, hcapped]
    split
    · split <;> rfl
    · rfl
  added _ _ := rfl

theorem perform_withoutStart (a : Act) (r : Recorder) :
    a.perform r.withoutStart = ((a.perform r).1.withoutStart, (a.perform r).2) := by
  cases a with
  | emit f => exact unseen_withoutStart.emit r f
  | endCycle =>
    have hperiod : r.withoutStart.implicitPeriod = r.implicitPeriod := rfl
    have hframes : r.withoutStart.frames = r.frames := rfl
    simp only [Act.perform, setImplicitPeriod, hperiod, hframes]
    split <;> rfl
  | _ => rfl

theorem follow_withoutStart (r : Recorder) : r.withoutStart.follow = r.follow.withoutStart := by
  have hframes : r.withoutStart.frames = r.frames := rfl
  unfold follow
  rw [hframes]
  split <;> rfl

/-- Statements that only concern the recorder do not see where the timeline starts over. -/
theorem effect_withoutStart {site : Site} {s : Statement} {f : Recorder → Recorder}
    (hf : s.effect? site = some f) (r : Recorder) :
    f r.withoutStart = (f r).withoutStart := by
  rcases Statement.composed_of_effect hf with ⟨event, -, rfl⟩ | hcomposed
  · exact congrArg Prod.fst (unseen_withoutStart.emit (r.announce event) r.current)
  · have hboth := Scripted.couples (R := fun r g => g = r.withoutStart) (L := fun _ _ => False)
      (fun _ _ _ => id) (fun _ _ _ => id) (by rintro r _ rfl; rfl) (by rintro event r _ - rfl; rfl)
      (fun a r g h => .inr (by rw [h, perform_withoutStart]; exact ⟨rfl, rfl⟩)) hcomposed
      (r := r) rfl
    exact (hboth.resolve_left id).1

theorem eq_of_withoutStart {r g : Recorder} (h : r.withoutStart = g.withoutStart) :
    g = { r with loopStart := g.loopStart } := by
  change g = { r.withoutStart with loopStart := g.loopStart }
  rw [h]
  rfl

theorem markLoopStart_withoutStart (passes : PassCount) (r : Recorder) :
    (Machine.markLoopStart passes r).withoutStart = r.withoutStart := by
  unfold Machine.markLoopStart
  split
  · rfl
  · split <;> rfl

end Recorder

def ActivationKind.rolled : ActivationKind → ActivationKind
  | .loop site passes => .loop site (.long passes.total)
  | kind => kind

def Activation.rolled (a : Activation) : Activation := { a with kind := a.kind.rolled }

def Machine.rolled (m : Machine) : Machine where
  recorder := m.recorder.withoutStart
  stack := m.stack.map Activation.rolled
  sequences := m.sequences
  counters := m.counters
  recent := m.recent
  steps := 0

def Outcome.rolled : Outcome → Outcome
  | .running m => .running m.rolled
  | .stopped m why => .stopped m.rolled why

@[simp] theorem ActivationKind.rolled_rolled (kind : ActivationKind) :
    kind.rolled.rolled = kind.rolled := by
  cases kind <;> rfl

@[simp] theorem Activation.rolled_rolled (a : Activation) : a.rolled.rolled = a.rolled := by
  simp [Activation.rolled]

@[simp] theorem Machine.rolled_rolled (m : Machine) : m.rolled.rolled = m.rolled := by
  simp [Machine.rolled, Recorder.withoutStart, Function.comp_def]

@[simp] theorem Outcome.rolled_rolled (out : Outcome) : out.rolled.rolled = out.rolled := by
  cases out <;> simp [Outcome.rolled]

namespace Machine
open Recorder

variable {settings : EngineSettings} {most most' : Int} {limit : Nat} {m n : Machine} {site : Site}
  {s : Statement} {top : Activation} {below : List Activation}

/-! ### Rolled stacks -/

theorem isLoop_rolled (a : Activation) : a.rolled.isLoop = a.isLoop := by
  obtain ⟨site, block, index, kind⟩ := a
  cases kind <;> rfl

theorem any_isLoop_rolled (stack : List Activation) :
    (stack.map Activation.rolled).any Activation.isLoop = stack.any Activation.isLoop := by
  simp [Function.comp_def, isLoop_rolled]

theorem activeSegment_rolled (stack : List Activation) :
    activeSegment (stack.map Activation.rolled) = activeSegment stack := by
  induction stack with
  | nil => rfl
  | cons a below ih =>
    obtain ⟨site, block, index, kind⟩ := a
    cases kind with
    | block => exact ih
    | segment name start => rfl
    | loop site passes => exact ih

theorem close_rolled (a : Activation) (r : Recorder) :
    close a.rolled r.withoutStart = (close a r).withoutStart := by
  obtain ⟨site, block, index, kind⟩ := a
  cases kind <;> rfl

theorem unwindTo_rolled {resume : Activation → List Activation → List Activation}
    (hresume : resume = leaveLoop ∨ resume = endPass) (stack : List Activation) (r : Recorder) :
    unwindTo resume (stack.map Activation.rolled) r.withoutStart =
      ((unwindTo resume stack r).1.map Activation.rolled,
        (unwindTo resume stack r).2.withoutStart) := by
  induction stack generalizing r with
  | nil => rfl
  | cons a below ih =>
    simp only [List.map_cons, unwindTo, isLoop_rolled]
    split
    · rcases hresume with rfl | rfl <;> rfl
    · rw [close_rolled, ih]

theorem mapRecorder_rolled (m : Machine) {f : Recorder → Recorder}
    (hf : ∀ r : Recorder, f r.withoutStart = (f r).withoutStart) :
    m.rolled.mapRecorder f = (m.mapRecorder f).rolled := by
  simp [mapRecorder, rolled, hf]

theorem withStack_rolled (m : Machine) (stack : List Activation) :
    m.rolled.withStack (stack.map Activation.rolled) = (m.withStack stack).rolled := by
  unfold withStack
  rw [activeSegment_rolled]
  rfl

theorem unwind_rolled (m : Machine) {resume : Activation → List Activation → List Activation}
    (hresume : resume = leaveLoop ∨ resume = endPass) :
    m.rolled.unwind resume = (m.unwind resume).rolled := by
  simp only [unwind, rolled, unwindTo_rolled hresume, activeSegment_rolled]
  rfl

theorem enter_rolled (settings : EngineSettings) (m : Machine) (a : Activation) :
    m.rolled.enter settings a.rolled = (m.enter settings a).rolled := by
  have hlength : m.rolled.stack.length = m.stack.length := List.length_map _
  unfold enter
  rw [hlength]
  split <;> rfl

theorem nextPass_rolled (m : Machine) (top : Activation) (below : List Activation) (again : Bool) :
    m.rolled.nextPass top.rolled (below.map Activation.rolled) again =
      (m.nextPass top below again).rolled := by
  cases again <;> rfl

theorem follow_rolled (out : Outcome) : out.rolled.follow = out.follow.rolled := by
  cases out with
  | running m => exact congrArg Outcome.running (m.mapRecorder_rolled follow_withoutStart)
  | stopped m why => rfl

/-! ### Turns of rolled machines -/

/-- Statements other than loops are executed on the rolled machine as on the machine itself. -/
theorem dispatch_rolled (settings : EngineSettings) (m : Machine) (site : Site)
    (hs : ∀ count body, s ≠ .loop count body) :
    m.rolled.dispatch settings site s = (m.dispatch settings site s).rolled := by
  have henv : m.rolled.recorder.env = m.recorder.env := rfl
  have hframes : m.rolled.recorder.frames = m.recorder.frames := rfl
  have hsequences : m.rolled.sequences = m.sequences := rfl
  have hany : m.rolled.stack.any Activation.isLoop = m.stack.any Activation.isLoop :=
    any_isLoop_rolled m.stack
  have hnote : ∀ faults : Env → List Notice,
      m.rolled.mapRecorder (fun r => r.note (faults r.env)) =
        (m.mapRecorder fun r => r.note (faults r.env)).rolled :=
    fun faults => m.mapRecorder_rolled fun _ => rfl
  cases heffect : s.effect? site with
  | some f =>
    rw [dispatch_of_effect heffect, dispatch_of_effect heffect,
      m.mapRecorder_rolled (effect_withoutStart heffect)]
    rfl
  | none =>
    cases s with
    | loop count body => exact absurd rfl (hs count body)
    | conditional branches otherwise =>
      simp only [dispatch, henv, hnote fun env => branchFaults env branches]
      split
      · rfl
      · exact enter_rolled settings _ ⟨_, _, 0, .block⟩
    | breakLoop =>
      simp only [dispatch, hany, m.unwind_rolled (.inl rfl)]
      split <;> rfl
    | continueLoop =>
      simp only [dispatch, hany, m.unwind_rolled (.inr rfl)]
      split <;> rfl
    | define name body => rfl
    | call name =>
      simp only [dispatch, hsequences]
      split
      · exact enter_rolled settings m ⟨_, _, 0, .block⟩
      · rfl
    | segment name body =>
      let opened : Activation := ⟨site, body, 0, .segment name m.recorder.frames.size⟩
      have hentered : m.rolled.enter settings opened = (m.enter settings opened).rolled :=
        enter_rolled settings m opened
      simp only [dispatch, hframes]
      rw [hentered]
      cases m.enter settings opened with
      | running n => exact congrArg Outcome.running (n.withStack_rolled n.stack)
      | stopped n why => rfl
    | _ => cases heffect

/-- A loop is entered as a long one, whether it is short or not. -/
theorem enterLoop_rolled (settings : EngineSettings) (m : Machine) (site : Site) (body : Block)
    (total : Option Int) :
    (m.enterLoop settings site body total).rolled =
      Machine.enter settings { m.rolled with counters := Assoc.assign site 0 m.counters }
        ⟨site, body, 0, .loop site (.long total)⟩ := by
  have hmarked : (Machine.mapRecorder { m with counters := Assoc.assign site 0 m.counters }
      (markLoopStart (passCount settings total))).rolled =
        { m.rolled with counters := Assoc.assign site 0 m.counters } := by
    simp [mapRecorder, rolled, markLoopStart_withoutStart]
  rw [enterLoop, ← enter_rolled, hmarked, Activation.rolled, ActivationKind.rolled,
    total_passCount]

/-- What a statement does to the rolled machine depends on the rolled machine only. -/
theorem rolled_dispatch (settings : EngineSettings) (most : Int) (m : Machine) (site : Site)
    (s : Statement) :
    (m.rolled.dispatch settings site s).rolled =
      (m.dispatch (settings.withUnrollLimit most) site s).rolled := by
  cases s with
  | loop count body =>
    have henv : m.rolled.recorder.env = m.recorder.env := rfl
    have hnoted : m.rolled.mapRecorder (fun r => r.note (passFaults r.env count)) =
        (m.mapRecorder fun r => r.note (passFaults r.env count)).rolled :=
      m.mapRecorder_rolled fun _ => rfl
    simp only [dispatch, henv, hnoted]
    split
    · exact Outcome.rolled_rolled (.running _)
    · rw [enterLoop_rolled, enterLoop_rolled, rolled_rolled]
      rfl
  | _ =>
    rw [dispatch_rolled settings m site (by simp), Outcome.rolled_rolled]
    rfl

theorem finishPass_rolled (hoff : settings.stabilizationRepeats = 0) (m : Machine)
    (top : Activation) (below : List Activation) (site : Site) (passes : PassCount) :
    (m.finishPass settings top below site passes).rolled =
      .running (nextPass
        { m.rolled with counters := Assoc.assign site (m.counter site + 1) m.counters }
        top.rolled (below.map Activation.rolled)
        (passes.total.all (m.counter site + 1 < ·))) := by
  have hnext : ∀ (steps : Nat) (again : Bool),
      (nextPass { m with
          counters := Assoc.assign site (m.counter site + 1) m.counters
          steps := steps } top below again).rolled =
        nextPass { m.rolled with counters := Assoc.assign site (m.counter site + 1) m.counters }
          top.rolled (below.map Activation.rolled) again :=
    fun steps again => (nextPass_rolled _ top below again).symm
  cases passes with
  | short total => exact congrArg Outcome.running (hnext m.steps _)
  | long total =>
    -- the place of the pass is remembered only for stabilization
    simp only [finishPass, countPass, if_pos hoff]
    exact congrArg Outcome.running (hnext (m.steps + 1) _)

theorem finishBlock_rolled (hoff : settings.stabilizationRepeats = 0) (m : Machine)
    (top : Activation) (below : List Activation) :
    (m.rolled.finishBlock settings top.rolled (below.map Activation.rolled)).rolled =
      (m.finishBlock settings top below).rolled := by
  have hleft : Machine.withStack (m.rolled.mapRecorder (close top.rolled))
      (below.map Activation.rolled) = ((m.mapRecorder (close top)).withStack below).rolled := by
    rw [← withStack_rolled]
    simp [mapRecorder, rolled, close_rolled]
  cases hkind : top.kind with
  | block =>
    have hkind' : top.rolled.kind = .block := congrArg ActivationKind.rolled hkind
    simp only [finishBlock, hkind, hkind', hleft]
    exact Outcome.rolled_rolled (.running _)
  | segment name start =>
    have hkind' : top.rolled.kind = .segment name start := congrArg ActivationKind.rolled hkind
    simp only [finishBlock, hkind, hkind', hleft]
    exact Outcome.rolled_rolled (.running _)
  | loop site passes =>
    have hkind' : top.rolled.kind = .loop site (.long passes.total) :=
      congrArg ActivationKind.rolled hkind
    have hcounter : m.rolled.counter site = m.counter site := rfl
    simp only [finishBlock, hkind, hkind', finishPass_rolled hoff, rolled_rolled,
      Activation.rolled_rolled, List.map_map, Function.comp_def, hcounter]
    rfl

theorem rolled_turn (hoff : settings.stabilizationRepeats = 0) (most : Int) (m : Machine)
    (top : Activation) (below : List Activation) :
    (m.rolled.turn settings top.rolled (below.map Activation.rolled)).rolled =
      (m.turn (settings.withUnrollLimit most) top below).rolled := by
  cases hs : top.block[top.index]? with
  | none =>
    have hs' : top.rolled.block[top.rolled.index]? = none := hs
    simp only [turn, hs, hs', finishBlock_rolled hoff]
    rfl
  | some s =>
    have hs' : top.rolled.block[top.rolled.index]? = some s := hs
    have hfetched : (m.rolled.fetch top.rolled (below.map Activation.rolled)).rolled =
        (m.fetch top below).rolled := by
      simp [fetch, rolled, Function.comp_def, Recorder.withoutStart, Activation.rolled]
    have hagain := rolled_dispatch settings settings.loopUnrollLimit
      (m.rolled.fetch top.rolled (below.map Activation.rolled)) (top.index :: top.site) s
    -- the rolled machine dispatches with its own limit, which does not matter either
    rw [turn_of_statement hs, turn_of_statement hs', ← follow_rolled, ← follow_rolled]
    rw [← rolled_dispatch settings most, ← hfetched, hagain]
    rfl

/-! ### Runs with different limits for unrolling -/

theorem advance_of_rolled (hoff : settings.stabilizationRepeats = 0) (h : m.rolled = n.rolled)
    (hm : ∀ k, m.advance (settings.withUnrollLimit most) limit ≠ .stopped k .stepLimit)
    (hn : ∀ k, n.advance (settings.withUnrollLimit most') limit ≠ .stopped k .stepLimit) :
    (m.advance (settings.withUnrollLimit most) limit).rolled =
      (n.advance (settings.withUnrollLimit most') limit).rolled := by
  have hstacks : m.stack.map Activation.rolled = n.stack.map Activation.rolled :=
    congrArg Machine.stack h
  have hframes : m.rolled.recorder.frames = n.rolled.recorder.frames := by rw [h]
  have hframes' : m.recorder.frames = n.recorder.frames := hframes
  unfold advance at hm hn ⊢
  cases hs : m.stack with
  | nil =>
    rw [hs] at hstacks
    have ht : n.stack = [] := List.map_eq_nil_iff.mp hstacks.symm
    simp only [ht, Outcome.rolled, h]
  | cons top below =>
    rw [hs] at hstacks
    obtain ⟨top', below', ht, htop, hbelow⟩ := List.map_eq_cons_iff.mp hstacks.symm
    -- the steps are what the two machines may differ in
    have hsteps : ¬ limit ≤ m.steps := by
      intro hle
      simp [hs, hle] at hm
    have hsteps' : ¬ limit ≤ n.steps := by
      intro hle
      simp [ht, hle] at hn
    simp only [ht, if_neg hsteps, if_neg hsteps', hframes']
    split
    · simp only [Outcome.rolled, h]
    · rw [← rolled_turn hoff, ← rolled_turn hoff, htop, hbelow, h]

theorem advance_ne_of_run {why : Stop} (h : (m.run settings limit).2 ≠ why) (k : Machine) :
    m.advance settings limit ≠ .stopped k why := by
  intro hstop
  rw [run_of_stopped hstop] at h
  exact h rfl

/-- Runs of machines that agree once they are rolled up end so, unless one of them is out of
steps. -/
theorem run_of_rolled (hoff : settings.stabilizationRepeats = 0) (h : m.rolled = n.rolled)
    (hm : (m.run (settings.withUnrollLimit most) limit).2 ≠ .stepLimit)
    (hn : (n.run (settings.withUnrollLimit most') limit).2 ≠ .stepLimit) :
    (m.run (settings.withUnrollLimit most) limit).1.rolled =
        (n.run (settings.withUnrollLimit most') limit).1.rolled ∧
      (m.run (settings.withUnrollLimit most) limit).2 =
        (n.run (settings.withUnrollLimit most') limit).2 := by
  induction m using run.induct (settings.withUnrollLimit most) limit generalizing n with
  | case1 m m' why hstop =>
    have hnext := advance_of_rolled hoff h (advance_ne_of_run hm) (advance_ne_of_run hn)
    rw [hstop] at hnext
    cases hother : n.advance (settings.withUnrollLimit most') limit with
    | running n' =>
      rw [hother] at hnext
      cases hnext
    | stopped n' why' =>
      rw [hother] at hnext
      rw [run_of_stopped hstop, run_of_stopped hother]
      exact ⟨(Outcome.stopped.inj hnext).1, (Outcome.stopped.inj hnext).2⟩
  | case2 m m' hstep ih =>
    have hnext := advance_of_rolled hoff h (advance_ne_of_run hm) (advance_ne_of_run hn)
    rw [hstep] at hnext
    cases hother : n.advance (settings.withUnrollLimit most') limit with
    | running n' =>
      rw [hother] at hnext
      rw [run_of_running hstep] at hm ⊢
      rw [run_of_running hother] at hn ⊢
      exact ih (Outcome.running.inj hnext) hm hn
    | stopped n' why' =>
      rw [hother] at hnext
      cases hnext

theorem closeAll_rolled (m : Machine) : m.rolled.closeAll = m.closeAll.withoutStart := by
  have hclosed : ∀ (stack : List Activation) (r : Recorder),
      (stack.map Activation.rolled).foldl (fun r a => close a r) r.withoutStart =
        (stack.foldl (fun r a => close a r) r).withoutStart := by
    intro stack
    induction stack with
    | nil => exact fun _ => rfl
    | cons a below ih =>
      intro r
      simp only [List.map_cons, List.foldl_cons, close_rolled, ih]
  exact hclosed m.stack m.recorder

end Machine

namespace Performance
open Machine Recorder

def withUnrollLimit (p : Performance) (most : Int) : Performance :=
  { p with settings := p.settings.withUnrollLimit most }

/-- Machines that agree once they are rolled up give the same timeline up to where it starts over,
and the same reports. -/
theorem generated_of_rolled (p : Performance) (most most' : Int) {m n : Machine} {why why' : Stop}
    (h : m.rolled = n.rolled ∧ why = why') :
    let g := (p.withUnrollLimit most).generated m why
    let g' := (p.withUnrollLimit most').generated n why'
    g'.timeline = { g.timeline with loopStart := g'.timeline.loopStart } ∧ g'.why = g.why ∧
      g'.log = g.log := by
  obtain ⟨hrolled, rfl⟩ := h
  have hclosed : m.closeAll.withoutStart = n.closeAll.withoutStart := by
    rw [← closeAll_rolled, ← closeAll_rolled, hrolled]
  unfold generated
  rw [eq_of_withoutStart hclosed]
  cases why <;> exact ⟨rfl, rfl, rfl⟩

/-- Without stabilization performances that differ in their limit for unrolling and do not run out
of steps generate the same timeline up to where it starts over, stop for the same reason and report
the same. -/
theorem perform_eq_of_unrolling (p : Performance) (maxSteps : Option Nat) {most most' : Int}
    (hoff : p.settings.stabilizationRepeats = 0)
    (h : ((p.withUnrollLimit most).perform maxSteps).why ≠ .stepLimit)
    (h' : ((p.withUnrollLimit most').perform maxSteps).why ≠ .stepLimit) :
    let g := (p.withUnrollLimit most).perform maxSteps
    let g' := (p.withUnrollLimit most').perform maxSteps
    g'.timeline = { g.timeline with loopStart := g'.timeline.loopStart } ∧ g'.why = g.why ∧
      g'.log = g.log := by
  have hrun : ((p.withUnrollLimit most).outcome maxSteps).1.rolled =
        ((p.withUnrollLimit most').outcome maxSteps).1.rolled ∧
      ((p.withUnrollLimit most).outcome maxSteps).2 =
        ((p.withUnrollLimit most').outcome maxSteps).2 := run_of_rolled hoff rfl h h'
  exact p.generated_of_rolled most most' hrun

def workout : Performance := { playing [
  .move (.along .right .one),
  .define "set" [.repeated (.int 3) [
    .move (.along .down .one),
    .conditional [.mk (.binary (.comparison .lt) (.variable "widget.y") (.int 2)) [.call "set"]]
      [.breakLoop]]],
  .repeated (.int 2) [.segment "round" [.call "set", .sync "rest"]]] with
  settings := { stabilizationRepeats := 0 } }

/-- With a limit of one no loop is short, and the timeline starts over where the first one does. -/
theorem perform_eq_of_unrolling_workout :
    let unrolled := (workout.withUnrollLimit 10).perform none
    let stepped := (workout.withUnrollLimit 1).perform none
    workout.settings.stabilizationRepeats = 0 ∧ unrolled.why ≠ .stepLimit ∧
      stepped.why ≠ .stepLimit ∧ unrolled.timeline.loopStart = 0 ∧ stepped.timeline.loopStart = 1 ∧
      stepped.timeline = { unrolled.timeline with loopStart := 1 } := by
  intro unrolled stepped
  obtain ⟨hunrolled, hstart⟩ : unrolled.why = .completed ∧ unrolled.timeline.loopStart = 0 := by cbv
  obtain ⟨hstepped, hstart'⟩ : stepped.why = .completed ∧ stepped.timeline.loopStart = 1 := by cbv
  have h : unrolled.why ≠ .stepLimit := by simp [hunrolled]
  have h' : stepped.why ≠ .stepLimit := by simp [hstepped]
  refine ⟨rfl, h, h', hstart, hstart', ?_⟩
  rw [← hstart']
  exact (perform_eq_of_unrolling workout none rfl h h').1

end Performance
end Choreography
