import Choreography.Proofs.Findings
import Choreography.Proofs.Occurrences
import Choreography.Proofs.Surveys

/-! # Warnings and runs

What a survey warns about at a place does nothing when a run gets there: the statement is taken off
and counted as a step, and all that is recorded is a report. Only a wait goes on for a frame. -/
namespace Choreography

/-! ### Arguments that are not positive -/

/-- A literal is the same integer in every environment. -/
theorem Env.evalInteger_of_literal {e : Expr} {value : Int} (h : e.literalInteger? = some value)
    (env : Env) : env.evalInteger e = value := by
  cases e <;> cases h
  rfl

namespace Recorder

def Reports (r r' : Recorder) : Prop := ∃ notices, r' = r.note notices

theorem Reports.refl (r : Recorder) : Reports r r := ⟨[], rfl⟩

theorem Reports.note (r : Recorder) (notices : List Notice) : Reports r (r.note notices) :=
  ⟨notices, rfl⟩

theorem Reports.trans {r₁ r₂ r₃ : Recorder} (h₁ : Reports r₁ r₂) (h₂ : Reports r₂ r₃) :
    Reports r₁ r₃ := by
  obtain ⟨first, rfl⟩ := h₁
  obtain ⟨later, rfl⟩ := h₂
  exact ⟨first ++ later, by simp only [Recorder.note, List.foldl_append]⟩

end Recorder

namespace Movement
open Recorder

variable {command argument : String} {m : Motion} {body : Pace → Recorder → Recorder}
  {r : Recorder} {e : Expr}

theorem unusable_of_mem {env : Env} {step interval : Expr}
    (harg : (argument, e) ∈ [("step", step), ("interval", interval)])
    (he : env.evalInteger e ≤ 0) : env.evalInteger step ≤ 0 ∨ env.evalInteger interval ≤ 0 := by
  simp only [List.mem_cons, List.not_mem_nil, or_false, Prod.mk.injEq] at harg
  rcases harg with ⟨-, rfl⟩ | ⟨-, rfl⟩
  · exact .inl he
  · exact .inr he

theorem reports_atPace_of_unusable
    (h : r.env.evalInteger m.step ≤ 0 ∨ r.env.evalInteger m.interval ≤ 0) :
    Reports r (atPace command m body r) := by
  simp only [atPace, pace, if_pos h]
  exact (Reports.note r _).trans (Reports.note _ _)

/-- A movement whose distance, step or interval is not positive only reports. -/
theorem reports_atPace (hbody : ∀ p r', p.distance ≤ 0 → Reports r' (body p r'))
    (harg : (argument, e) ∈
      [("distance", m.distance), ("step", m.step), ("interval", m.interval)])
    (he : r.env.evalInteger e ≤ 0) : Reports r (atPace command m body r) := by
  by_cases hunusable : r.env.evalInteger m.step ≤ 0 ∨ r.env.evalInteger m.interval ≤ 0
  · exact reports_atPace_of_unusable hunusable
  · have hdistance : r.env.evalInteger m.distance ≤ 0 := by
      rcases List.mem_cons.mp harg with heq | harg
      · cases heq
        exact he
      · exact absurd (unusable_of_mem harg he) hunusable
    simp only [atPace, pace, if_neg hunusable]
    exact ((Reports.note r _).trans (Reports.note _ _)).trans (hbody _ _ hdistance)

theorem reports_overDistance (command : String) (body : Pace → Recorder → Recorder) (p : Pace)
    (r : Recorder) (h : p.distance ≤ 0) : Reports r (overDistance command body p r) := by
  rw [overDistance, if_pos h]
  exact Reports.note r _

end Movement

/-- A statement with a checked argument only concerns the recorder, or it is a loop with a count. -/
theorem Statement.effect_or_loop {s : Statement} {argument : String} {e : Expr} (site : Site)
    (harg : (argument, e) ∈ s.checked) :
    (∃ f, s.effect? site = some f) ∨ ∃ body, s = .loop (.times e) body := by
  cases s with
  | loop count body =>
    cases count with
    | infinite => cases harg
    | times n =>
      cases List.mem_singleton.mp harg
      exact .inr ⟨body, rfl⟩
  | _ => first | exact .inl ⟨_, rfl⟩ | cases harg

/-- A statement other than a wait that has a checked argument which is not positive only
reports. -/
theorem Statement.reports_of_effect {s : Statement} {site : Site} {f : Recorder → Recorder}
    {r : Recorder} {argument : String} {e : Expr} (hf : s.effect? site = some f)
    (harg : (argument, e) ∈ s.checked) (he : r.env.evalInteger e ≤ 0)
    (hs : ∀ event maxTicks, s ≠ .waitFor event maxTicks) : Recorder.Reports r (f r) := by
  cases s <;> cases hf
  case move m =>
    refine Movement.reports_atPace (fun p r' h => ?_) harg he
    simp only [if_pos h]
    exact Recorder.Reports.refl r'
  case scrollClip m => exact Movement.reports_atPace (Movement.reports_overDistance _ _) harg he
  case scrollBounce m => exact Movement.reports_atPace (Movement.reports_overDistance _ _) harg he
  case slide m => exact Movement.reports_atPace (Movement.reports_overDistance _ _) harg he
  case scrollLoop m =>
    simp only [Movement.scrollLoop]
    split
    · exact Recorder.Reports.refl r
    · exact Movement.reports_atPace_of_unusable (Movement.unusable_of_mem harg he)
  case moveTo start finish step interval =>
    simp only [Movement.moveTo, if_pos (Movement.unusable_of_mem harg he)]
    exact (Recorder.Reports.note r _).trans (Recorder.Reports.note _ _)
  case pause duration =>
    cases List.mem_singleton.mp harg
    simp only [Movement.pause, Int.toNat_of_nonpos he]
    exact Recorder.Reports.note r _
  case period ticks =>
    cases List.mem_singleton.mp harg
    simp only [Movement.declarePeriod, if_neg (Int.not_lt.mpr he)]
    exact (Recorder.Reports.note r _).trans (Recorder.Reports.note _ _)
  case waitFor event maxTicks => exact absurd rfl (hs event maxTicks)
  case resetPosition => cases harg
  case sync event => cases harg

namespace Machine
open Recorder

variable {settings : EngineSettings} {limit : Nat} {m : Machine} {s : Statement}

/-- The next statement is passed over: it is taken off and counted as a step, and only reports are
added. -/
def PassesOver (settings : EngineSettings) (limit : Nat) (m : Machine) : Prop :=
  ∃ top below notices, m.stack = top :: below ∧
    m.advance settings limit = .running ((m.fetch top below).mapRecorder (·.note notices))

theorem AtStatement.passesOver (h : m.AtStatement limit s) (hm : m.recorder.Following)
    (hdispatch : ∀ top below, m.stack = top :: below → ∃ f : Recorder → Recorder,
      Reports m.recorder (f m.recorder) ∧
        (m.fetch top below).dispatch settings (top.index :: top.site) s =
          .running ((m.fetch top below).mapRecorder f)) : m.PassesOver settings limit := by
  obtain ⟨top, below, hstack, hs, hsteps, hframes⟩ := h
  obtain ⟨f, ⟨notices, hnotices⟩, hrun⟩ := hdispatch top below hstack
  have hfollow : (f m.recorder).follow = m.recorder.note notices := by
    rw [hnotices]
    exact follow_eq ((Quiet.note _ _).following hm)
  refine ⟨top, below, notices, hstack, ?_⟩
  rw [advance_eq_turn hstack hsteps hframes, turn_of_statement hs, hrun]
  change Outcome.running ((m.fetch top below).mapRecorder fun _ => (f m.recorder).follow) = _
  rw [hfollow]
  rfl

end Machine

namespace Performance
open Machine Recorder Diagnostics

variable {p : Performance} {maxSteps : Option Nat} {m : Machine} {s : Statement}

theorem Executing.passesOver (h : p.Executing maxSteps m s)
    (hdispatch : ∀ top below, m.stack = top :: below → ∃ f : Recorder → Recorder,
      Reports m.recorder (f m.recorder) ∧
        (m.fetch top below).dispatch p.settings (top.index :: top.site) s =
          .running ((m.fetch top below).mapRecorder f)) :
    m.PassesOver p.settings (p.limit maxSteps) :=
  h.next.passesOver h.following hdispatch

/-- Outside of all loops the end of a loop or of a pass is passed over. -/
theorem Executing.passesOver_of_stray (h : p.Executing maxSteps m s)
    (hs : s = .breakLoop ∨ s = .continueLoop) (hloop : m.stack.any Activation.isLoop = false) :
    m.PassesOver p.settings (p.limit maxSteps) := by
  refine h.passesOver fun top below hstack => ?_
  have hfetched : (m.fetch top below).stack.any Activation.isLoop = false := by
    rw [hstack] at hloop
    exact hloop
  rcases hs with rfl | rfl
  · exact ⟨(·.note [.strayBreak]), .note _ _, by simp only [dispatch, hfetched]; rfl⟩
  · exact ⟨(·.note [.strayContinue]), .note _ _, by simp only [dispatch, hfetched]; rfl⟩

/-- A call of a sequence that the program does not define is passed over. -/
theorem Executing.passesOver_of_undefined {name : String}
    (h : p.Executing maxSteps m (.call name))
    (hname : ¬ ∃ place ∈ p.program.places, ∃ body, place.statement = .define name body) :
    m.PassesOver p.settings (p.limit maxSteps) := by
  refine h.passesOver fun top below _ => ⟨(·.note [.undefinedSequence name]), .note _ _, ?_⟩
  have hnone : (m.fetch top below).sequences.find? name = none := by
    apply Option.eq_none_iff_forall_ne_some.mpr
    intro q hq
    obtain ⟨place, hplace, hdefine⟩ := h.charted.defined name q hq
    exact hname ⟨place, hplace, q.body, hdefine⟩
  simp only [dispatch, hnone]

/-- A statement with an argument that is not positive is passed over, unless it is a wait. -/
theorem Executing.passesOver_of_argument {argument : String} {e : Expr}
    (h : p.Executing maxSteps m s) (harg : (argument, e) ∈ s.checked)
    (he : m.recorder.env.evalInteger e ≤ 0) (hs : ∀ event maxTicks, s ≠ .waitFor event maxTicks) :
    m.PassesOver p.settings (p.limit maxSteps) := by
  refine h.passesOver fun top below _ => ?_
  rcases Statement.effect_or_loop (top.index :: top.site) harg with ⟨f, hf⟩ | ⟨body, rfl⟩
  · exact ⟨f, s.reports_of_effect hf harg he hs, dispatch_of_effect hf⟩
  · have hnone : total? (m.fetch top below).recorder.env (.times e) = none := if_pos he
    exact ⟨fun r => r.note (passFaults r.env (.times e)), .note _ _, by simp only [dispatch, hnone]⟩

/-- After a statement that is passed over comes the next one of its block. -/
theorem Executing.onward {t : Statement} {top : Activation} {below : List Activation}
    (h : p.Executing maxSteps m s) (hpass : m.PassesOver p.settings (p.limit maxSteps))
    (hstack : m.stack = top :: below) (ht : top.block[top.index + 1]? = some t)
    (hsteps : m.steps + 1 < p.limit maxSteps) :
    ∃ m', p.Executing maxSteps m' t ∧ m'.stack = { top with index := top.index + 1 } :: below ∧
      m'.steps = m.steps + 1 := by
  obtain ⟨top', below', notices, hstack', hadvance⟩ := hpass
  cases hstack.symm.trans hstack'
  obtain ⟨-, -, -, -, -, hframes⟩ := h.next
  exact ⟨_, ⟨h.reached.tail hadvance, _, _, rfl, ht, hsteps, hframes⟩, rfl, rfl⟩

/-- The warnings of a survey tell the truth about all runs: the warnings about single statements are
those at the places of the program, whatever a run executes has one of these places, and all that
is warned about except a wait is passed over. -/
theorem warned_passed_over (p : Performance) (maxSteps : Option Nat) :
    (ofProgram p.program).filter Warning.isLocal = p.program.places.flatMap warningsAt ∧
    ∀ m s, p.Executing maxSteps m s →
      (∃ place ∈ p.program.places, m.nextSite? = some place.site) ∧
      (∀ place ∈ p.program.places, m.nextSite? = some place.site →
        place.statement = s ∧
        (.breakOutsideLoop ∈ warningsAt place ∨ .continueOutsideLoop ∈ warningsAt place →
          m.PassesOver p.settings (p.limit maxSteps)) ∧
        ∀ kind argument value, .nonPositiveArgument kind argument value ∈ warningsAt place →
          (∀ event maxTicks, s ≠ .waitFor event maxTicks) →
            m.PassesOver p.settings (p.limit maxSteps)) ∧
      ∀ name, s = .call name → .undefinedSequence name ∈ ofProgram p.program →
        m.PassesOver p.settings (p.limit maxSteps) := by
  refine ⟨local_warnings p.program, fun m s h => ⟨?_, fun place hplace hsite => ?_, ?_⟩⟩
  · obtain ⟨depth, site, hnext, hmem, -⟩ := h.place
    exact ⟨_, hmem, hnext⟩
  · obtain ⟨hstatement, hfree⟩ := h.eq_place hplace hsite
    obtain ⟨site, depth, t⟩ := place
    cases hstatement
    refine ⟨rfl, fun hstray => ?_, fun kind argument value hvalue hwait => ?_⟩
    · rcases hstray with hstray | hstray
      · cases warned_of_mem hstray with
        | breakLoop hs hdepth => exact h.passesOver_of_stray (.inl hs) (hfree hdepth)
      · cases warned_of_mem hstray with
        | continueLoop hs hdepth => exact h.passesOver_of_stray (.inr hs) (hfree hdepth)
    · cases warned_of_mem hvalue with
      | argument harg hliteral hle =>
        have he := hle
        rw [← Env.evalInteger_of_literal hliteral m.recorder.env] at he
        exact h.passesOver_of_argument harg he hwait
  · rintro name rfl hname
    exact h.passesOver_of_undefined ((undefinedSequence_iff p.program name).mp hname).2

def futile : Performance := playing [
  .breakLoop,
  .call "nowhere",
  .repeated .zero [.pause .one],
  .move (.along .right .zero)]

theorem warned_passed_over_futile :
    ofProgram futile.program = [.breakOutsideLoop, .nonPositiveArgument "loop" "count" 0,
      .nonPositiveArgument "move" "distance" 0, .undefinedSequence "nowhere"] ∧
    ∃ m₁ m₂ m₃ m₄, futile.Executing none m₁ .breakLoop ∧
      futile.Executing none m₂ (.call "nowhere") ∧
      futile.Executing none m₃ (.repeated .zero [.pause .one]) ∧
      futile.Executing none m₄ (.move (.along .right .zero)) ∧
      ∀ m ∈ [m₁, m₂, m₃, m₄], m.PassesOver futile.settings (futile.limit none) := by
  have hwarnings : ofProgram futile.program = [.breakOutsideLoop,
      .nonPositiveArgument "loop" "count" 0, .nonPositiveArgument "move" "distance" 0,
      .undefinedSequence "nowhere"] := by decide
  have hall := (warned_passed_over futile none).2
  have h₁ : futile.Executing none (.start futile.program futile.recorder) .breakLoop :=
    ⟨.refl, _, _, rfl, rfl, by decide, by decide⟩
  obtain ⟨-, hstray, -⟩ := (hall _ _ h₁).2.1 _ (List.mem_of_getElem? (i := 0) rfl) rfl
  have hpass₁ := hstray (.inl (by decide))
  obtain ⟨m₂, h₂, hstack₂, hsteps₂⟩ := h₁.onward hpass₁ rfl rfl (by decide)
  have hpass₂ := (hall _ _ h₂).2.2 "nowhere" rfl (by rw [hwarnings]; decide)
  obtain ⟨m₃, h₃, hstack₃, hsteps₃⟩ := h₂.onward hpass₂ hstack₂ rfl (by rw [hsteps₂]; decide)
  have hsite₃ : m₃.nextSite? = some [2] := by rw [nextSite?, hstack₃]; rfl
  obtain ⟨-, -, hcount⟩ := (hall _ _ h₃).2.1 _ (List.mem_of_getElem? (i := 2) rfl) hsite₃
  have hpass₃ := hcount "loop" "count" 0 (by decide) (fun _ _ h => by cases h)
  obtain ⟨m₄, h₄, hstack₄, -⟩ := h₃.onward hpass₃ hstack₃ rfl (by rw [hsteps₃, hsteps₂]; decide)
  have hsite₄ : m₄.nextSite? = some [3] := by rw [nextSite?, hstack₄]; rfl
  obtain ⟨-, -, hdistance⟩ := (hall _ _ h₄).2.1 _ (List.mem_of_getElem? (i := 4) rfl) hsite₄
  have hpass₄ := hdistance "move" "distance" 0 (by decide) (fun _ _ h => by cases h)
  refine ⟨hwarnings, _, _, _, _, h₁, h₂, h₃, h₄, ?_⟩
  simp only [List.forall_mem_cons]
  exact ⟨hpass₁, hpass₂, hpass₃, hpass₄, fun m hm => absurd hm List.not_mem_nil⟩

end Performance

end Choreography
