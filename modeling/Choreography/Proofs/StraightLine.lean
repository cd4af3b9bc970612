import Choreography.Proofs.Executions
import Choreography.Proofs.Expansions
import Choreography.Proofs.PausedRuns

/-! # Straight-line programs

In a program without movements, waits, loops and conditionals a dry run meets the same statements as
the run, in the same order, and each takes as many ticks as the run adds frames. So a course goes
along with the machine: what is left of the open blocks is what is left to do, the bodies that have
been called are those whose names are to be released, and both know the same sequences. -/
namespace Choreography

namespace Expr

def mentions (name : String) : Expr → Bool
  | .literal _ => false
  | .variable other => other == name
  | .negation e => e.mentions name
  | .binary _ lhs rhs => lhs.mentions name || rhs.mentions name

/-- Whether the value of an expression may depend on where the widget is. -/
def mentionsPlace (e : Expr) : Bool := e.mentions "widget.x" || e.mentions "widget.y"

end Expr

theorem Env.lookup_moved (env : Env) (x y : Int) {name : String} (hx : name ≠ "widget.x")
    (hy : name ≠ "widget.y") :
    ({ env with x := x, y := y } : Env).lookup name = env.lookup name := by
  simp only [lookup, builtin?, if_neg hx, if_neg hy]

theorem Env.eval_moved (env : Env) (x y : Int) {e : Expr} (h : e.mentionsPlace = false) :
    ({ env with x := x, y := y } : Env).eval e = env.eval e := by
  induction e with
  | literal v => rfl
  | «variable» name =>
    simp only [Expr.mentionsPlace, Expr.mentions, Bool.or_eq_false_iff, beq_eq_false_iff_ne] at h
    rw [eval, eval, lookup_moved env x y h.1 h.2]
  | negation e ih =>
    have he : e.mentionsPlace = false := h
    rw [eval, eval, ih he]
  | binary op lhs rhs ihl ihr =>
    simp only [Expr.mentionsPlace, Expr.mentions, Bool.or_eq_false_iff] at h
    have hlhs : lhs.mentionsPlace = false := by rw [Expr.mentionsPlace, h.1.1, h.2.1, Bool.or_self]
    have hrhs : rhs.mentionsPlace = false := by rw [Expr.mentionsPlace, h.1.2, h.2.2, Bool.or_self]
    rw [eval, eval, ihl hlhs, ihr hrhs]

/-- A statement that takes the same ticks wherever the widget is, and whose blocks run once. -/
def Statement.isStraight : Statement → Bool
  | .pause duration => !duration.mentionsPlace
  | .sync _ => true
  | .resetPosition => true
  | .segment .. => true
  | .define .. => true
  | .call _ => true
  | _ => false

def Program.isStraightLine (p : Program) : Bool :=
  p.places.all fun place => place.statement.isStraight

namespace Machine
open Recorder DryRun

variable {settings : EngineSettings} {limit : Nat} {m m' : Machine} {seen later : List Machine}
  {name : String} {height : Nat}

/-! ### Calls that are being executed -/

def called? (m : Machine) : Option String :=
  match m.next? with
  | some (_, .call name) => some name
  | _ => none

def during (call : Machine) (later : List Machine) : List Machine :=
  later.takeWhile fun m => call.stack.length < m.stack.length

/-- No name is called while a call of the same name is being executed. -/
def neverRecalls : List Machine → Bool
  | [] => true
  | m :: later =>
      m.called?.all (fun name => (m.during later).all fun inner => inner.called? != some name) &&
        neverRecalls later

theorem neverRecalls_of_append {first second : List Machine}
    (h : neverRecalls (first ++ second) = true) : neverRecalls second = true := by
  induction first with
  | nil => exact h
  | cons m rest ih =>
    rw [List.cons_append, neverRecalls, Bool.and_eq_true] at h
    exact ih h.2

/-- A call of a name that was made at a height of the stack is being executed. -/
def Calling (seen : List Machine) (height : Nat) (name : String) : Prop :=
  ∃ before call after, seen = before ++ call :: after ∧ call.called? = some name ∧
    call.stack.length = height ∧ ∀ m ∈ after, height < m.stack.length

namespace Calling

theorem begin (seen : List Machine) (h : m.called? = some name) :
    Calling (seen ++ [m]) m.stack.length name :=
  ⟨seen, m, [], rfl, h, rfl, fun _ hx => absurd hx List.not_mem_nil⟩

theorem next (h : Calling seen height name) (hm : height < m.stack.length) :
    Calling (seen ++ [m]) height name := by
  obtain ⟨before, call, after, rfl, hname, hheight, hafter⟩ := h
  refine ⟨before, call, after ++ [m], by simp, hname, hheight, fun x hx => ?_⟩
  rcases List.mem_append.mp hx with hx | hx
  · exact hafter x hx
  · rwa [List.mem_singleton.mp hx]

theorem ne_called (h : Calling seen height name) (hm : height < m.stack.length)
    (hnever : neverRecalls (seen ++ m :: later) = true) : m.called? ≠ some name := by
  obtain ⟨before, call, after, rfl, hname, rfl, hafter⟩ := h
  rw [List.append_assoc] at hnever
  have hcall := neverRecalls_of_append hnever
  rw [List.cons_append, neverRecalls, Bool.and_eq_true, hname, Option.all_some] at hcall
  have hmem : m ∈ call.during (after ++ m :: later) := by
    have hfirst : (m :: later).takeWhile (fun x => call.stack.length < x.stack.length) =
        m :: call.during later := List.takeWhile_cons_of_pos (decide_eq_true hm)
    rw [during, List.takeWhile_append_of_pos fun x hx => decide_eq_true (hafter x hx), hfirst]
    exact List.mem_append_right after List.mem_cons_self
  exact bne_iff_ne.mp (List.all_eq_true.mp hcall.1 m hmem)

end Calling

/-! ### Stacks and what is left to do -/

variable {calling : Nat → String → Prop} {top : Activation} {below stack : List Activation}
  {todo : List Pending} {s : Statement} {d : DryRun}

/-- What is left to do is what is left of the open blocks; where a body has been called, its name is
released after it. -/
inductive Mirrors (calling : Nat → String → Prop) : List Activation → List Pending → Prop
  | nil : Mirrors calling [] []
  | block {a : Activation} {below : List Activation} {todo : List Pending}
      (hkind : a.isLoop = false) (hbelow : Mirrors calling below todo) :
      Mirrors calling (a :: below) (.block a.rest :: todo)
  | body {a : Activation} {below : List Activation} {todo : List Pending} {name : String}
      (hkind : a.isLoop = false) (hname : calling below.length name)
      (hbelow : Mirrors calling below todo) :
      Mirrors calling (a :: below) (.block a.rest :: .release name :: todo)

namespace Mirrors

theorem imp {calling' : Nat → String → Prop} (h : Mirrors calling stack todo)
    (himp : ∀ height name, height < stack.length → calling height name → calling' height name) :
    Mirrors calling' stack todo := by
  induction h with
  | nil => exact .nil
  | block hkind _ ih =>
    exact .block hkind (ih fun height name hlt => himp height name (Nat.lt_succ_of_lt hlt))
  | body hkind hname _ ih =>
    exact .body hkind (himp _ _ (Nat.lt_succ_self _) hname)
      (ih fun height name hlt => himp height name (Nat.lt_succ_of_lt hlt))

/-- A name that is to be released belongs to a call that is being executed. -/
theorem calling_of_release (h : Mirrors calling stack todo) (hmem : .release name ∈ todo) :
    ∃ height, height < stack.length ∧ calling height name := by
  induction h with
  | nil => cases hmem
  | block _ _ ih =>
    rcases List.mem_cons.mp hmem with heq | hmem
    · cases heq
    · obtain ⟨height, hlt, hcalling⟩ := ih hmem
      exact ⟨height, Nat.lt_succ_of_lt hlt, hcalling⟩
  | body _ hname _ ih =>
    rcases List.mem_cons.mp hmem with heq | hmem
    · cases heq
    · rcases List.mem_cons.mp hmem with heq | hmem
      · cases heq
        exact ⟨_, Nat.lt_succ_self _, hname⟩
      · obtain ⟨height, hlt, hcalling⟩ := ih hmem
        exact ⟨height, Nat.lt_succ_of_lt hlt, hcalling⟩

theorem not_loop (h : Mirrors calling (top :: below) todo) : top.isLoop = false := by
  cases h with
  | block hkind _ => exact hkind
  | body hkind _ _ => exact hkind

/-- The statement that the machine executes is the one that the dry run takes up. -/
theorem fetch (h : Mirrors calling (top :: below) todo) (hs : top.block[top.index]? = some s) :
    ∃ rest, (∀ d, Course.step ⟨d, todo⟩ = some (d.takeUp s rest)) ∧
      Mirrors calling ({ top with index := top.index + 1 } :: below) rest := by
  have hrest : top.rest = s :: ({ top with index := top.index + 1 } : Activation).rest := by
    obtain ⟨hlt, rfl⟩ := List.getElem?_eq_some_iff.mp hs
    exact List.drop_eq_getElem_cons hlt
  cases h with
  | block hkind hbelow =>
    rw [hrest]
    exact ⟨_, fun _ => rfl, .block hkind hbelow⟩
  | body hkind hname hbelow =>
    rw [hrest]
    exact ⟨_, fun _ => rfl, .body hkind hname hbelow⟩

/-- When the machine leaves a block, the dry run goes on after it and may release a name. -/
theorem leave (h : Mirrors calling (top :: below) todo) (hend : top.block[top.index]? = none)
    (d : DryRun) :
    ∃ expanding rest, Course.Reaches ⟨d, todo⟩ ⟨{ d with expanding := expanding }, rest⟩ ∧
      Mirrors calling below rest := by
  have hrest : top.rest = [] := List.drop_eq_nil_of_le (List.getElem?_eq_none_iff.mp hend)
  cases h with
  | block _ hbelow =>
    rw [hrest]
    exact ⟨d.expanding, _, .single rfl, hbelow⟩
  | body _ _ hbelow =>
    rw [hrest]
    exact ⟨_, _, .head rfl (.single rfl), hbelow⟩

end Mirrors

/-! ### One turn -/

/-- The dry run is at the tick of the next frame, has found what has been announced and knows the same
values, but for the place of the widget. -/
structure Agrees (d : DryRun) (r : Recorder) : Prop where
  tick : d.tick = r.tick
  events : d.events = r.syncs
  env : ∃ x y, r.env = { d.env with x := x, y := y }

namespace Agrees

variable {d' : DryRun} {r r' : Recorder}

theorem of_quiet (h : Agrees d r) (hquiet : Quiet r r') : Agrees d r' := by
  refine ⟨?_, ?_, ?_⟩
  · rw [Recorder.tick, hquiet.frames]
    exact h.tick
  · rw [hquiet]
    exact h.events
  · rw [hquiet.env]
    exact h.env

theorem evalInteger (h : Agrees d r) {e : Expr} (he : e.mentionsPlace = false) :
    r.env.evalInteger e = d.env.evalInteger e := by
  obtain ⟨x, y, henv⟩ := h.env
  rw [Env.evalInteger, Env.evalInteger, henv, Env.eval_moved d.env x y he]

/-- As long as the frames can be counted with sixty-four bits, so can the ticks. -/
theorem tick_elapse {n : Nat} (h : Agrees d r) (hsize : r'.frames.size = r.frames.size + n)
    (hfits : r'.frames.size < 2 ^ 64) : (d.elapse n).tick = r'.tick := by
  have htick : d.tick + n = r'.frames.size := by rw [h.tick, hsize, Recorder.tick]
  rw [elapse, htick, wrapUnsigned_of_lt hfits, Recorder.tick]

theorem follow (h : Agrees d r) : Agrees d r.follow := by
  refine ⟨?_, ?_, ?_⟩
  · rw [Recorder.tick, frames_follow]
    exact h.tick
  · rw [syncs_follow]
    exact h.events
  · obtain ⟨x, y, henv⟩ := h.env
    unfold Recorder.follow
    split
    · exact ⟨_, _, by rw [henv]⟩
    · exact ⟨x, y, henv⟩

end Agrees

structure Mirrored (seen : List Machine) (m : Machine) (c : Course) : Prop where
  agrees : Agrees c.run m.recorder
  sequences : c.run.sequences = m.bodies
  stack : Mirrors (Calling seen) m.stack c.todo

/-! #### Statements that only concern the recorder -/

theorem recorded_pause {duration : Expr} {r : Recorder}
    (h : (Movement.pause duration r).capped = false) :
    (Movement.pause duration r).frames.size =
        r.frames.size + (r.env.evalInteger duration).toNat ∧
      (Movement.pause duration r).env = r.env ∧ (Movement.pause duration r).syncs = r.syncs := by
  have hpause : Movement.pause duration r = { r.noteIntegers [duration] with
      frames := r.frames ++ (pauseFrames r.activeSegment r.current
        (r.env.evalInteger duration).toNat).toArray } :=
    (emitPause_eq_addAll h).trans (addAll_pauseFrames _ _ _)
  rw [hpause]
  refine ⟨?_, rfl, rfl⟩
  simp only [Array.size_append, List.size_toArray, length_pauseFrames]

/-- Nothing goes before a jump to the origin. -/
theorem recorded_resetPosition {r : Recorder} (h : (Movement.resetPosition r).capped = false) :
    (Movement.resetPosition r).frames.size = r.frames.size + 1 ∧
      (Movement.resetPosition r).env = r.env ∧ (Movement.resetPosition r).syncs = r.syncs := by
  have hfiller : r.filler { Frame.plain 0 0 with reset := true } = [] := by
    have hreset : (r.label { Frame.plain 0 0 with reset := true }).reset = true := rfl
    unfold filler Smoothing.inserted
    cases r.frames.back? <;> simp [Smoothing.isGap, hreset]
  have hjump : Movement.resetPosition r = { r with
      frames := r.frames.push (r.label { Frame.plain 0 0 with reset := true }) } :=
    congrArg Prod.fst (emit_of_uncapped hfiller h)
  rw [hjump]
  exact ⟨Array.size_push _, rfl, rfl⟩

theorem recorded_sync {event : String} {r : Recorder} (hr : r.Following)
    (h : (Movement.sync event r).capped = false) :
    (Movement.sync event r).frames.size = r.frames.size + 1 ∧
      (Movement.sync event r).env = r.env ∧
      (Movement.sync event r).syncs = r.syncs.push ⟨event, r.tick⟩ := by
  refine ⟨?_, ?_, syncs_sync event r⟩
  · rw [frames_sync hr h, Array.size_push]
  · change ((r.announce event).emit r.current).1.env = r.env
    rw [(Adds.emit (r.announce event) r.current).same]
    rfl

/-- Such a statement of a straight line takes as many ticks as it adds frames. -/
theorem agrees_effect {site : Site} {r : Recorder} {f : Recorder → Recorder} (h : Agrees d r)
    (hr : r.Following) (hs : s.isStraight = true) (hf : s.effect? site = some f)
    (hcapped : (f r).capped = false) (hfits : (f r).frames.size < 2 ^ 64) (todo : List Pending) :
    ∃ d', d.takeUp s todo = ⟨d', todo⟩ ∧ d'.sequences = d.sequences ∧ Agrees d' (f r) := by
  cases s with
  | pause duration =>
    cases hf
    obtain ⟨hsize, henv, hsyncs⟩ := recorded_pause hcapped
    have hduration : duration.mentionsPlace = false := by
      simpa only [Statement.isStraight, Bool.not_eq_true'] using hs
    rw [h.evalInteger hduration] at hsize
    exact ⟨d.spend duration, rfl, rfl, h.tick_elapse hsize hfits, hsyncs ▸ h.events, henv ▸ h.env⟩
  | resetPosition =>
    cases hf
    obtain ⟨hsize, henv, hsyncs⟩ := recorded_resetPosition hcapped
    exact ⟨d.elapse 1, rfl, rfl, h.tick_elapse hsize hfits, hsyncs ▸ h.events, henv ▸ h.env⟩
  | sync event =>
    cases hf
    obtain ⟨hsize, henv, hsyncs⟩ := recorded_sync hr hcapped
    refine ⟨d.announce event, rfl, rfl, h.tick_elapse hsize hfits, ?_, henv ▸ h.env⟩
    rw [hsyncs, DryRun.announce, h.events, h.tick]
  | call name => cases hf
  | segment name body => cases hf
  | define name body => cases hf
  | _ => cases hs

/-! #### Any turn -/

/-- A block that is no loop is left. -/
theorem eq_of_left (hend : top.block[top.index]? = none) (hkind : top.isLoop = false)
    (h : m.turn settings top below = .running m') :
    m' = (m.mapRecorder (close top)).withStack below := by
  simp only [turn, hend, finishBlock] at h
  unfold Activation.isLoop at hkind
  split at h
  · rename_i hloop
    rw [hloop] at hkind
    cases hkind
  · cases h
    rfl

theorem called?_of_stack (hstack : m.stack = top :: below)
    (hs : top.block[top.index]? = some (.call name)) : m.called? = some name := by
  rw [called?, next?_eq_of_stack hstack, hs]
  rfl

/-- The dry run expands a body that is called: it would pass over a name that is being expanded, and
this one is not. -/
theorem mirrored_call {k n : Machine} {name : String} {site : Site} (hagrees : Agrees d m'.recorder)
    (hsequences : d.sequences = k.bodies) (hfree : name ∉ d.expanding)
    (hcalling : Calling (seen ++ [m]) k.stack.length name)
    (hrest : Mirrors (Calling (seen ++ [m])) k.stack todo)
    (hn : k.dispatch settings site (.call name) = .running n) (hstack : m'.stack = n.stack)
    (hbodies : m'.bodies = n.bodies) : Mirrored (seen ++ [m]) m' (d.takeUp (.call name) todo) := by
  have hknown : d.sequences.find? name = (k.sequences.find? name).map Sequence.body := by
    rw [hsequences]
    exact Table.find?_map ..
  simp only [dispatch] at hn
  cases hq : k.sequences.find? name with
  | some q =>
    rw [hq, Option.map_some] at hknown
    rw [takeUp_of_free hknown hfree]
    rw [hq] at hn
    rw [eq_of_enter hn] at hstack hbodies
    refine ⟨⟨hagrees.tick, hagrees.events, hagrees.env⟩, hsequences.trans hbodies.symm, ?_⟩
    rw [hstack]
    exact .body rfl hcalling hrest
  | none =>
    rw [hq, Option.map_none] at hknown
    rw [takeUp_of_undefined hknown]
    rw [hq] at hn
    cases hn
    refine ⟨hagrees, hsequences.trans hbodies.symm, ?_⟩
    rw [hstack]
    exact hrest

/-- A statement that the machine executes and the dry run takes up. -/
theorem mirrored_statement (hagrees : Agrees d m.recorder) (hsequences : d.sequences = m.bodies)
    (hm : m.recorder.Following) (hstack : m.stack = top :: below)
    (hs : top.block[top.index]? = some s) (hstraight : s.isStraight = true)
    (hrest : Mirrors (Calling (seen ++ [m])) ({ top with index := top.index + 1 } :: below) todo)
    (hfree : ∀ name, m.called? = some name → name ∉ d.expanding)
    (h : m.turn settings top below = .running m') (hcapped : m'.recorder.capped = false)
    (hfits : m'.recorder.frames.size < 2 ^ 64) :
    Mirrored (seen ++ [m]) m' (d.takeUp s todo) := by
  cases hf : s.effect? (top.index :: top.site) with
  | some f =>
    rw [turn_of_effect hs hf] at h
    cases h
    have hlater : Later (f m.recorder) (f m.recorder).follow := .follow _
    obtain ⟨d', htake, hsame, hagrees'⟩ := agrees_effect hagrees hm hstraight hf
      (hlater.uncapped hcapped) (Nat.lt_of_le_of_lt hlater.size_le hfits) todo
    rw [htake]
    exact ⟨hagrees'.follow, hsame.trans hsequences, hrest⟩
  | none =>
    -- Nothing that the dry run counts is recorded; only the stack and the sequences go on.
    have hquiet : Quiet m.recorder (m.turn settings top below).recorder := by
      refine quiet_turn (fun s' hs' => ?_) hm
      cases hs.symm.trans hs'
      exact hf
    rw [h] at hquiet
    have hagrees' : Agrees d m'.recorder := hagrees.of_quiet hquiet
    obtain ⟨n, hn, hcontrol⟩ := control_of_follow ((turn_of_statement hs).symm.trans h)
    have hstack' : m'.stack = n.stack := congrArg Control.stack hcontrol
    have hsequences' : m'.bodies = n.bodies :=
      congrArg (Table.map Sequence.body) (congrArg Control.sequences hcontrol)
    cases s with
    | define name body =>
      cases hn
      refine ⟨⟨hagrees'.tick, hagrees'.events, hagrees'.env⟩, ?_, ?_⟩
      · rw [hsequences', bodies, Table.map_insert]
        exact congrArg (·.insert name body) hsequences
      · rw [hstack']
        exact hrest
    | segment name body =>
      simp only [dispatch] at hn
      split at hn
      · rename_i k henter
        cases hn
        rw [eq_of_enter henter] at hstack' hsequences'
        refine ⟨hagrees', hsequences.trans hsequences'.symm, ?_⟩
        rw [hstack']
        exact .block rfl hrest
      · cases hn
    | call name =>
      have hcalled : m.called? = some name := called?_of_stack hstack hs
      have hcalling : Calling (seen ++ [m]) m.stack.length name := .begin seen hcalled
      rw [hstack] at hcalling
      exact mirrored_call (k := m.fetch top below) hagrees' hsequences (hfree name hcalled) hcalling
        hrest hn hstack' hsequences'
    | pause duration => cases hf
    | resetPosition => cases hf
    | sync event => cases hf
    | _ => cases hstraight

/-- With each turn of the machine the dry run goes on to where it goes along with it again. -/
theorem mirrored_advance {c : Course} (hc : Mirrored seen m c) (hm : m.recorder.Following)
    (hstraight : m.Next (·.isStraight = true))
    (hfree : ∀ name, m.called? = some name → name ∉ c.run.expanding)
    (h : m.advance settings limit = .running m') (hcapped : m'.recorder.capped = false)
    (hfits : m'.recorder.frames.size < 2 ^ 64) :
    ∃ c', Course.Reaches c c' ∧ Mirrored (seen ++ [m]) m' c' := by
  obtain ⟨top, below, hstack, -, -, hturn⟩ := turn_of_advance h
  obtain ⟨d, todo⟩ := c
  have hopen : Mirrors (Calling (seen ++ [m])) (top :: below) todo := by
    rw [← hstack]
    exact hc.stack.imp fun height name hlt hcalling => hcalling.next hlt
  cases hs : top.block[top.index]? with
  | none =>
    obtain ⟨expanding, rest, hreaches, hbelow⟩ := hopen.leave hs d
    have hleft := eq_of_left hs hopen.not_loop hturn
    have hquiet : Quiet m.recorder m'.recorder := by
      rw [hleft]
      exact (Quiet.close top m.recorder).trans (Quiet.setSegment _ _)
    have hagrees := hc.agrees.of_quiet hquiet
    refine ⟨_, hreaches, ⟨hagrees.tick, hagrees.events, hagrees.env⟩, ?_, ?_⟩
    · rw [hleft]
      exact hc.sequences
    · rw [hleft]
      exact hbelow
  | some s =>
    obtain ⟨rest, htake, hrest⟩ := hopen.fetch hs
    exact ⟨_, .single (htake d), mirrored_statement hc.agrees hc.sequences hm hstack hs
      (hstraight top below s hstack hs) hrest hfree hturn hcapped hfits⟩

theorem mirrored_start (p : Performance) :
    Mirrored [] (start p.program p.recorder) (.start p.program p.env) := by
  refine ⟨⟨rfl, rfl, p.env.x, p.env.y, rfl⟩, rfl, ?_⟩
  exact .block rfl .nil

end Machine

namespace Performance
open Machine Recorder DryRun

variable {p : Performance} {maxSteps : Option Nat} {m : Machine}

/-- What a machine on a run has recorded is kept until the end. -/
theorem later_reaches
    (h : Reaches p.settings (p.limit maxSteps) (.start p.program p.recorder) m) :
    Later m.recorder (p.outcome maxSteps).1.recorder := by
  have hrun : p.outcome maxSteps = m.run p.settings (p.limit maxSteps) := Reaches.run_eq h
  rw [hrun]
  exact kept_run (kept_later m.recorder) (following_reaches h (following_start _ _ _ _)) (.refl _)

/-- A machine on the run of a straight line executes only such statements. -/
theorem straight_next (hp : p.program.isStraightLine = true)
    (h : Reaches p.settings (p.limit maxSteps) (.start p.program p.recorder) m) :
    m.Next (·.isStraight = true) :=
  (charted_reaches (charted_start p.program p.recorder) h).next (List.all_eq_true.mp hp)

/-- From where a dry run goes along with the machine, it gets to the end together with it. -/
theorem exists_last {seen turns : List Machine} {final : Machine × Stop} {c : Course}
    (hp : p.program.isStraightLine = true)
    (huncapped : (p.outcome maxSteps).1.recorder.capped = false)
    (hfits : (p.outcome maxSteps).1.recorder.frames.size < 2 ^ 64)
    (hturns : Turns p.settings (p.limit maxSteps) m turns final) (hwhy : final.2 = .completed)
    (hreaches : Reaches p.settings (p.limit maxSteps) (.start p.program p.recorder) m)
    (hnever : neverRecalls (seen ++ turns) = true)
    (hcourse : Course.Reaches (.start p.program p.env) c) (hc : Mirrored seen m c) :
    ∃ last, Course.Reaches (.start p.program p.env) last ∧ last.step = none ∧
      last.run.events = final.1.recorder.syncs := by
  induction hturns generalizing seen c with
  | @before m why h =>
    cases hwhy
    obtain ⟨hstack, -⟩ := stack_of_completed h
    obtain ⟨d, todo⟩ := c
    have hnil : Mirrors (Calling seen) [] todo := by
      rw [← hstack]
      exact hc.stack
    cases hnil
    exact ⟨_, hcourse, rfl, hc.agrees.events⟩
  | @amid m _ top below why hstack _ h =>
    cases hwhy
    rw [(stack_of_completed h).1] at hstack
    cases hstack
  | @onward m next turns final h _ ih =>
    have horderly := (Course.Orderly.start p.program p.env).reaches hcourse
    have hfree : ∀ name, m.called? = some name → name ∉ c.run.expanding := by
      -- A name that is being expanded is still to be released, so its call is being executed.
      intro name hcalled hmem
      rw [horderly.pending] at hmem
      obtain ⟨pending, hpending, hreleased⟩ := List.mem_filterMap.mp hmem
      cases pending with
      | block rest => cases hreleased
      | release other =>
        cases hreleased
        obtain ⟨height, hlt, hcalling⟩ := hc.stack.calling_of_release hpending
        exact hcalling.ne_called hlt hnever hcalled
    have hnext := hreaches.tail h
    have hlater := later_reaches hnext
    obtain ⟨c', hsteps, hc'⟩ := mirrored_advance hc
      (following_reaches hreaches (following_start _ _ _ _)) (straight_next hp hreaches) hfree h
      (hlater.uncapped huncapped) (Nat.lt_of_le_of_lt hlater.size_le hfits)
    rw [List.append_cons] at hnever
    exact ih hwhy hnext hnever (hcourse.trans hsteps) hc'

/-- The run of a straight line in which no name is called while a call of the same name is being
executed, and which is completed with fewer frames than the cap allows, announces what has been found
without it: the same events in the same order at the same ticks. The cap is a number of sixty-four
bits. -/
theorem found_as_announced {turns : List Machine} (hp : p.program.isStraightLine = true)
    (hturns : Turns p.settings (p.limit maxSteps) (.start p.program p.recorder) turns
      (p.outcome maxSteps))
    (hcalls : neverRecalls turns = true) (hwhy : (p.perform maxSteps).why = .completed)
    (hcap : p.settings.maxPositions < 2 ^ 64)
    (hroom : (p.outcome maxSteps).1.recorder.frames.size < p.settings.maxPositions) :
    p.syncEvents.value = (p.perform maxSteps).timeline.syncs := by
  have hnever : neverRecalls ([] ++ turns) = true := hcalls
  obtain ⟨last, hlast, hnone, hevents⟩ := exists_last hp (uncapped_of_room hroom)
    (Nat.lt_trans hroom hcap) hturns hwhy .refl hnever .refl (mirrored_start p)
  rw [syncs_perform, ← hevents, Course.eq_of_last hlast hnone]
  rfl

/-- Calls before and after definitions, calls in calls, and a sequence that is defined again. Smoothing
is on, and the widget jumps to the origin. -/
def drill : Performance := { playing [
  .call "beat",
  .define "beat" [.sync "tick", .pause (.int 2)],
  .define "bar" [.call "beat", .segment "rest" [.pause (.variable "widget.width"), .call "beat"]],
  .call "bar",
  .define "beat" [.resetPosition, .sync "tock", .pause (.int (-3))],
  .call "bar"] with settings := { smoothing := true }, start := .plain 3 0 }

theorem turns_drill : Turns drill.settings (drill.limit none) (.start drill.program drill.recorder)
    (drill.stretch 0 33) (drill.outcome none) := by
  have hstop : (drill.after 33).advance drill.settings (drill.limit none) =
      .stopped (drill.after 33) .completed := rfl
  have hturns := (drill.path_stretch 0 33).turns hstop
  have hend := hturns.run_eq
  rw [← hend] at hturns
  exact hturns

theorem found_as_announced_drill :
    drill.program.isStraightLine = true ∧ neverRecalls (drill.stretch 0 33) = true ∧
      (drill.perform none).why = .completed ∧
      drill.syncEvents.value = (drill.perform none).timeline.syncs ∧
      (drill.perform none).timeline.syncs =
        [⟨"tick", 0⟩, ⟨"tick", 4⟩, ⟨"tock", 8⟩, ⟨"tock", 11⟩] := by
  have hstraight : drill.program.isStraightLine = true := by decide +kernel
  have hcalls : neverRecalls (drill.stretch 0 33) = true := by decide +kernel
  have hwhy : (drill.perform none).why = .completed := by cbv
  have hsize : (drill.outcome none).1.recorder.frames.size = 12 := by cbv
  have hroom : (drill.outcome none).1.recorder.frames.size < drill.settings.maxPositions := by
    rw [hsize]
    decide
  have hcap : drill.settings.maxPositions < 2 ^ 64 := by decide
  exact ⟨hstraight, hcalls, hwhy,
    found_as_announced hstraight turns_drill hcalls hwhy hcap hroom, by cbv⟩

end Performance
end Choreography
