import Choreography.Proofs.Lockstep

/-! # Lower limits

A run with lower limits records the first frames of a run with higher ones. A lower limit on steps
ends the run earlier. A lower cap drops frames from the first one on that has no room; what the run
does after that may differ, but adds no frame. -/
namespace Choreography
namespace Recorder

def withCap (r : Recorder) (cap : Nat) (spans : Array Span) : Recorder :=
  { r with maxPositions := cap, spans := spans }

/-- The same recorder with a cap that is not lower, and perhaps other spans. -/
def Roomier (r g : Recorder) : Prop :=
  ∃ cap spans, r.maxPositions ≤ cap ∧ g = r.withCap cap spans

structure Exhausted (r g : Recorder) : Prop where
  full : r.maxPositions ≤ r.frames.size
  begins : r.frames.toList <+: g.frames.toList

variable {r g : Recorder}

theorem Later.begins {r' : Recorder} (h : Later r r') : r.frames.toList <+: r'.frames.toList := by
  obtain ⟨more, hmore⟩ := h.grows
  rw [hmore, Array.toList_append]
  exact List.prefix_append _ _

theorem frames_emit_of_full (h : r.maxPositions ≤ r.frames.size) (f : Frame) :
    (r.emit f).1.frames = r.frames := by
  have hframes := r.toList_emit f
  rw [Nat.sub_eq_zero_of_le h, List.take_zero, List.append_nil] at hframes
  exact Array.toList_inj.mp hframes

theorem Exhausted.of_same {r' : Recorder} (h : Exhausted r g) (hframes : r'.frames = r.frames)
    (hcap : r'.maxPositions = r.maxPositions) : Exhausted r' g := by
  refine ⟨?_, ?_⟩
  · rw [hframes, hcap]
    exact h.full
  · rw [hframes]
    exact h.begins

theorem Exhausted.emit (h : Exhausted r g) (f : Frame) : Exhausted (r.emit f).1 g :=
  h.of_same (frames_emit_of_full h.full f) (by rw [(Adds.emit r f).same])

/-- A recorder without room gets no frame. -/
theorem kept_exhausted (g : Recorder) : Kept (Exhausted · g) :=
  kept_of_emit (fun _ f h => h.emit f) fun _ _ hsame h => h.of_same hsame.frames hsame.cap

theorem setImplicitPeriod_withCap (r : Recorder) (cap : Nat) (spans : Array Span) (ticks : Nat) :
    (r.withCap cap spans).setImplicitPeriod ticks =
      (r.setImplicitPeriod ticks).withCap cap spans := by
  have hperiod : (r.withCap cap spans).implicitPeriod = r.implicitPeriod := rfl
  unfold setImplicitPeriod
  rw [hperiod]
  split <;> rfl

theorem follow_withCap (r : Recorder) (cap : Nat) (spans : Array Span) :
    (r.withCap cap spans).follow = r.follow.withCap cap spans := by
  have hframes : (r.withCap cap spans).frames = r.frames := rfl
  unfold Recorder.follow
  rw [hframes]
  split <;> rfl

theorem markLoopStart_withCap (r : Recorder) (cap : Nat) (spans : Array Span) (passes : PassCount) :
    Machine.markLoopStart passes (r.withCap cap spans) =
      (Machine.markLoopStart passes r).withCap cap spans := by
  have hstart : (r.withCap cap spans).loopStart = r.loopStart := rfl
  unfold Machine.markLoopStart
  rw [hstart]
  split
  · rfl
  · split <;> rfl

/-- With more room more of what is added in a row is kept. -/
theorem Roomier.emit (h : Roomier r g) (f : Frame) :
    Exhausted (r.emit f).1 (g.emit f).1 ∨
      (Roomier (r.emit f).1 (g.emit f).1 ∧ (r.emit f).2 = (g.emit f).2) := by
  obtain ⟨cap, spans, hcap, rfl⟩ := h
  have hadded : (r.withCap cap spans).filler f ++ [(r.withCap cap spans).label f] =
      r.filler f ++ [r.label f] := rfl
  by_cases hroom : r.frames.size + (r.filler f ++ [r.label f]).length ≤ r.maxPositions
  · have hkept := pushAll_of_le (r := r.withCap cap spans) (Nat.le_trans hroom hcap)
    rw [emit_eq_pushAll, emit_eq_pushAll, hadded, pushAll_of_le hroom, hkept]
    exact .inr ⟨⟨cap, spans, hcap, rfl⟩, rfl⟩
  · have hframes := r.toList_emit f
    refine .inl ⟨?_, ?_⟩
    · have hlength := congrArg List.length hframes
      rw [List.length_append, List.length_take, Array.length_toList, Array.length_toList] at hlength
      rw [(Adds.emit r f).same, hlength]
      simp only
      omega
    · rw [hframes, toList_emit, hadded]
      exact (List.prefix_append_right_inj _).mpr
        (List.take_prefix_take_left (Nat.sub_le_sub_right hcap _))

theorem Roomier.act (a : Act) (h : Roomier r g) :
    Exhausted (a.perform r).1 (a.perform g).1 ∨
      (Roomier (a.perform r).1 (a.perform g).1 ∧ (a.perform r).2 = (a.perform g).2) := by
  cases a with
  | emit f => exact h.emit f
  | endCycle =>
    obtain ⟨cap, spans, hcap, rfl⟩ := h
    refine .inr ⟨⟨cap, spans, ?_, setImplicitPeriod_withCap _ _ _ _⟩, rfl⟩
    rw [(Later.act .endCycle r).cap]
    exact hcap
  | _ =>
    obtain ⟨cap, spans, hcap, rfl⟩ := h
    exact .inr ⟨⟨cap, spans, hcap, rfl⟩, rfl⟩

theorem Roomier.follow (h : Roomier r g) : Roomier r.follow g.follow := by
  obtain ⟨cap, spans, hcap, rfl⟩ := h
  refine ⟨cap, spans, ?_, follow_withCap _ _ _⟩
  rw [(Later.follow r).cap]
  exact hcap

/-- What is full begins another recorder also after that one has gone on. -/
theorem kept_begun (r : Recorder) : Kept (Exhausted r ·) :=
  kept_of_later fun _ _ hlater h => ⟨h.full, h.begins.trans hlater.begins⟩

/-- With more room a statement does the same, unless there was too little room before. -/
theorem Roomier.effect {site : Site} {s : Statement} {f : Recorder → Recorder}
    (hf : s.effect? site = some f) (h : Roomier r g) :
    Exhausted (f r) (f g) ∨ Roomier (f r) (f g) := by
  rcases Statement.composed_of_effect hf with ⟨event, -, rfl⟩ | hcomposed
  · have hannounced : Roomier (r.announce event) (g.announce event) := by
      obtain ⟨cap, spans, hcap, rfl⟩ := h
      exact ⟨cap, spans, hcap, rfl⟩
    have hcurrent : (g.announce event).current = (r.announce event).current := by
      obtain ⟨cap, spans, hcap, rfl⟩ := h
      rfl
    simp only [Movement.sync, hcurrent]
    exact (hannounced.emit (r.announce event).current).imp_right fun h => h.1
  · have hview : ∀ r g : Recorder, Roomier r g → r.view = g.view := by
      rintro r g ⟨cap, spans, hcap, rfl⟩
      rfl
    have hwait : ∀ (event : String) (r g : Recorder), event ∈ s.awaited → Roomier r g →
        Movement.waitLength r event = Movement.waitLength g event := by
      rintro event r g - ⟨cap, spans, hcap, rfl⟩
      rfl
    have hboth := Scripted.couples (fun a r g => (kept_exhausted g).act a r)
      (fun a r => (kept_begun r).act a) hview hwait (fun a r g => Roomier.act a) hcomposed h
    exact hboth.imp_right fun h => h.1

/-- Runs that differ only in their cap are in lockstep until the lower one is met. -/
theorem coupling_roomier (limit : Nat) :
    Coupling limit (fun _ => True) (fun _ _ => True) Roomier Exhausted where
  left := kept_exhausted
  right := kept_begun
  env := by
    rintro r g ⟨cap, spans, hcap, rfl⟩
    rfl
  limits := by
    rintro r g ⟨cap, spans, hcap, rfl⟩
    exact .inr Iff.rfl
  starts _ := trivial
  effect := by
    intro r g site s f _ hf h
    rcases h.effect hf with hfull | h
    · exact .inl ((kept_begun _).follow _ ((kept_exhausted _).follow _ hfull))
    · exact .inr h.follow
  follow := Roomier.follow
  note := by
    rintro r g notices ⟨cap, spans, hcap, rfl⟩
    exact ⟨cap, spans, hcap, rfl⟩
  setSegment := by
    rintro r g name ⟨cap, spans, hcap, rfl⟩
    exact ⟨cap, spans, hcap, rfl⟩
  closeSpan := by
    rintro r g name start start' - ⟨cap, spans, hcap, rfl⟩
    exact ⟨cap, _, hcap, rfl⟩
  markLoopStart := by
    rintro r g passes ⟨cap, spans, hcap, rfl⟩
    refine ⟨cap, spans, ?_, markLoopStart_withCap _ _ _ _⟩
    rw [(Later.of_quiet (Quiet.markLoopStart passes r)).cap]
    exact hcap

end Recorder

namespace Machine
open Recorder

variable {settings : EngineSettings} {limit limit' : Nat}

/-- A higher limit on steps lets a run go on where the lower one stops it, and changes nothing
before. -/
theorem begins_run_of_le (hlimit : limit ≤ limit') {m : Machine} (hm : m.recorder.Following) :
    (m.run settings limit).1.recorder.frames.toList <+:
      (m.run settings limit').1.recorder.frames.toList := by
  have hturn : ∀ {m : Machine} {top below}, m.stack = top :: below → m.steps < limit →
      m.recorder.frames.size < limit → m.advance settings limit' = m.advance settings limit := by
    intro m top below hstack hsteps hframes
    rw [advance_eq_turn hstack hsteps hframes, advance_eq_turn hstack (by omega) (by omega)]
  induction m using run.induct settings limit with
  | case1 m m' why hstop =>
    rw [run_of_stopped hstop]
    rcases advance_cases settings limit m with ⟨why', hbefore⟩ | ⟨top, below, hstack, hs, hf⟩
    · have hrest : Later m.recorder (m.run settings limit').1.recorder :=
        kept_run (kept_later m.recorder) hm (Later.refl _)
      have hsame := hbefore.symm.trans hstop
      cases hsame
      exact hrest.begins
    · have hsame : m.run settings limit' = (m', why) :=
        run_of_stopped ((hturn hstack hs hf).trans hstop)
      exact hsame ▸ List.prefix_refl _
  | case2 m m' hstep ih =>
    obtain ⟨top, below, hstack, hs, hf, -⟩ := turn_of_advance hstep
    have hnext := following_advance settings limit hm
    rw [hstep] at hnext
    rw [run_of_running hstep, run_of_running ((hturn hstack hs hf).trans hstep)]
    exact ih hnext

/-- With a higher cap a run begins with the frames of the same run with a lower one. -/
theorem begins_run_of_roomier (settings : EngineSettings) (limit : Nat) (program : Program)
    {r g : Recorder} (h : Roomier r g) (hr : r.Following) (hg : g.Following) :
    ((start program r).run settings limit).1.recorder.frames.toList <+:
      ((start program g).run settings limit).1.recorder.frames.toList := by
  have hstack : Stacks (fun _ _ => True) [⟨[], program.statements, 0, .block⟩]
      [⟨[], program.statements, 0, .block⟩] := .cons (.intro _ _ _ .block) .nil
  have halike : Alike (fun _ _ => True) Roomier (start program r) (start program g) :=
    ⟨h, hstack, rfl, rfl, rfl, rfl⟩
  have hrun := run_like settings (coupling_roomier limit) halike hr hg
    fun _ _ _ _ _ _ _ => trivial
  rcases hrun with hfull | ⟨hlast, -⟩
  · exact hfull.begins
  · obtain ⟨cap, spans, -, hsame⟩ := hlast.recorder
    rw [hsame]
    exact List.prefix_refl _

end Machine

namespace Performance
open Machine

def withLimits (p : Performance) (steps cap : Nat) : Performance :=
  { p with settings := { p.settings with maxSteps := steps, maxPositions := cap } }

theorem outcome_withLimits (p : Performance) (steps cap : Nat) (maxSteps : Option Nat) :
    (p.withLimits steps cap).outcome maxSteps =
      (Machine.start p.program (p.withLimits steps cap).recorder).run p.settings
        ((p.withLimits steps cap).limit maxSteps) := by
  have hturns : ∀ m : Machine, m.advance (p.withLimits steps cap).settings
      ((p.withLimits steps cap).limit maxSteps) =
      m.advance p.settings ((p.withLimits steps cap).limit maxSteps) := fun _ => rfl
  exact run_congr hturns _

/-- Limits only cut a run off: the frames of a run are the first ones of any run of the same program
with limits that are not lower, with all their marks, whether its limit on steps comes from the
settings or from the caller. -/
theorem lower_limits_truncate (p : Performance) {steps steps' cap cap' : Nat}
    {maxSteps maxSteps' : Option Nat}
    (hsteps : (p.withLimits steps cap).limit maxSteps ≤ (p.withLimits steps' cap').limit maxSteps')
    (hcap : cap ≤ cap') :
    ((p.withLimits steps cap).outcome maxSteps).1.recorder.frames.toList <+:
      ((p.withLimits steps' cap').outcome maxSteps').1.recorder.frames.toList := by
  have hfollowing : ∀ steps cap, (p.withLimits steps cap).recorder.Following :=
    fun steps cap => Recorder.following_start _ _ _ _
  have hroomier : Recorder.Roomier (p.withLimits steps cap).recorder
      (p.withLimits steps' cap').recorder := ⟨cap', #[], hcap, rfl⟩
  rw [outcome_withLimits, outcome_withLimits]
  exact (begins_run_of_roomier p.settings _ p.program hroomier (hfollowing _ _)
    (hfollowing _ _)).trans (begins_run_of_le hsteps (hfollowing _ _))

def errand : Performance where
  program := .ofBlock [
    .scrollClip { Motion.along .right (.int 2) with interval := .int 2 },
    .pause .one,
    .pause .one]
  settings := {}
  widget := ⟨1, 1⟩
  container := ⟨9, 9⟩
  start := .plain 0 0
  eventTicks := ∅
  source := fun _ => none

/-- The lower cap drops the arrival and leaves the frame before it as it is. -/
theorem lower_limits_truncate_errand :
    (errand.withLimits 2 3).limit none ≤ (errand.withLimits 9 9).limit none ∧ 3 ≤ 9 ∧
      ((errand.withLimits 2 3).outcome none).1.recorder.frames.toList <+:
        ((errand.withLimits 9 9).outcome none).1.recorder.frames.toList := by
  have hsteps : (errand.withLimits 2 3).limit none ≤ (errand.withLimits 9 9).limit none := by decide
  exact ⟨hsteps, by decide, lower_limits_truncate errand hsteps (by decide)⟩

end Performance
end Choreography
