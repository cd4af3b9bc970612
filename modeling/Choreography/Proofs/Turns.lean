import Choreography.Proofs.Recording
import Mathlib.Logic.Relation

/-! # Turns of the machine

What one turn may do to the recorder, and what follows for whole runs: a turn either executes one
movement and lets the widget follow it, or changes nothing but spans, names and reports. -/
namespace Choreography
namespace Recorder

/-- The widget is where the last frame shows it. -/
def Following (r : Recorder) : Prop :=
  ∀ f, r.frames.back? = some f → f.coords = (r.env.x, r.env.y)

theorem following_start (env : Env) (eventTicks : Table Nat) (maxPositions : Nat)
    (smoothing : Bool) : (start env eventTicks maxPositions smoothing).Following := by
  intro f hf
  simp [start] at hf

/-- Only the place of the widget is different after it follows. -/
theorem follow_same (r : Recorder) : r.follow = { r with env := r.follow.env } := by
  unfold follow
  split <;> rfl

@[simp] theorem frames_follow (r : Recorder) : r.follow.frames = r.frames := by rw [follow_same]

theorem following_follow (r : Recorder) : r.follow.Following := by
  intro f hf
  rw [frames_follow] at hf
  simp [follow, hf, Frame.coords]

theorem follow_eq {r : Recorder} (h : r.Following) : r.follow = r := by
  unfold follow
  split
  · rename_i f hf
    have hplace := h f hf
    simp only [Frame.coords, Prod.mk.injEq] at hplace
    rw [hplace.1, hplace.2]
  · rfl

def Quiet (r r' : Recorder) : Prop :=
  r' = { r with activeSegment := r'.activeSegment, loopStart := r'.loopStart, spans := r'.spans,
                log := r'.log }

namespace Quiet

theorem refl (r : Recorder) : Quiet r r := rfl

theorem trans {r₁ r₂ r₃ : Recorder} (h₁ : Quiet r₁ r₂) (h₂ : Quiet r₂ r₃) : Quiet r₁ r₃ := by
  unfold Quiet at *
  rw [h₂, h₁]

theorem note (r : Recorder) (notices : List Notice) : Quiet r (r.note notices) := rfl

theorem setSegment (r : Recorder) (name : Option String) : Quiet r (r.setSegment name) := rfl

theorem closeSpan (r : Recorder) (name : String) (start : Nat) : Quiet r (r.closeSpan name start) :=
  rfl

theorem close (a : Activation) (r : Recorder) : Quiet r (Machine.close a r) := by
  unfold Machine.close
  split
  · exact closeSpan _ _ _
  · exact refl r

theorem markLoopStart (passes : PassCount) (r : Recorder) :
    Quiet r (Machine.markLoopStart passes r) := by
  unfold Machine.markLoopStart
  split
  · rfl
  · split <;> rfl

theorem unwindTo (resume : Activation → List Activation → List Activation)
    (stack : List Activation) (r : Recorder) : Quiet r (Machine.unwindTo resume stack r).2 := by
  induction stack generalizing r with
  | nil => exact refl r
  | cons a below ih =>
    simp only [Machine.unwindTo]
    split
    · exact refl r
    · exact (close a r).trans (ih _)

theorem frames {r r' : Recorder} (h : Quiet r r') : r'.frames = r.frames := by rw [h]

theorem env {r r' : Recorder} (h : Quiet r r') : r'.env = r.env := by rw [h]

theorem following {r r' : Recorder} (h : Quiet r r') (hr : r.Following) : r'.Following := by
  intro f hf
  rw [h.frames] at hf
  rw [h.env]
  exact hr f hf

end Quiet

/-- What movements, announcements and quiet changes keep. -/
structure Kept (P : Recorder → Prop) : Prop where
  act : ∀ (a : Act) (r : Recorder), P r → P (a.perform r).1
  sync : ∀ (event : String) (r : Recorder), P r → P (Movement.sync event r)
  follow : ∀ r : Recorder, P r → P r.follow
  quiet : ∀ r r' : Recorder, Quiet r r' → P r → P r'

theorem Kept.effect {P : Recorder → Prop} (hP : Kept P) {site : Site} {s : Statement}
    {f : Recorder → Recorder} (h : s.effect? site = some f) {r : Recorder} (hr : P r) :
    P (f r) := by
  rcases Statement.composed_of_effect h with ⟨event, -, rfl⟩ | hf
  · exact hP.sync event r hr
  · exact hf.invariant hP.act hr

/-- The frames and what decides on adding more are the same. -/
structure SameFrames (r r' : Recorder) : Prop where
  frames : r'.frames = r.frames
  cap : r'.maxPositions = r.maxPositions
  capped : r'.capped = r.capped
  smoothing : r'.smoothing = r.smoothing

/-- What only concerns the frames is kept if adding a frame keeps it. -/
theorem kept_of_emit {P : Recorder → Prop} (hemit : ∀ r f, P r → P (r.emit f).1)
    (hsame : ∀ r r' : Recorder, SameFrames r r' → P r → P r') : Kept P where
  act a r h := by
    cases a with
    | emit f => exact hemit r f h
    | endCycle =>
      simp only [Act.perform, setImplicitPeriod]
      split <;> exact hsame r _ ⟨rfl, rfl, rfl, rfl⟩ h
    | _ => exact hsame r _ ⟨rfl, rfl, rfl, rfl⟩ h
  sync event r h := hemit _ _ (hsame r (r.announce event) ⟨rfl, rfl, rfl, rfl⟩ h)
  follow r h := by
    unfold follow
    split <;> exact hsame r _ ⟨rfl, rfl, rfl, rfl⟩ h
  quiet r r' hquiet h := by
    refine hsame r r' ?_ h
    rw [hquiet]
    exact ⟨rfl, rfl, rfl, rfl⟩

/-- What stays while a run goes on: the cap, the ticks of events, the mark of a dropped frame, and
all frames. -/
structure Later (r r' : Recorder) : Prop where
  cap : r'.maxPositions = r.maxPositions
  eventTicks : r'.eventTicks = r.eventTicks
  capped : r.capped = true → r'.capped = true
  grows : ∃ more, r'.frames = r.frames ++ more

namespace Later

theorem refl (r : Recorder) : Later r r := ⟨rfl, rfl, id, ⟨#[], by simp⟩⟩

theorem trans {r₁ r₂ r₃ : Recorder} (h₁ : Later r₁ r₂) (h₂ : Later r₂ r₃) : Later r₁ r₃ where
  cap := h₂.cap.trans h₁.cap
  eventTicks := h₂.eventTicks.trans h₁.eventTicks
  capped := h₂.capped ∘ h₁.capped
  grows := by
    obtain ⟨more₁, hmore₁⟩ := h₁.grows
    obtain ⟨more₂, hmore₂⟩ := h₂.grows
    exact ⟨more₁ ++ more₂, by rw [hmore₂, hmore₁, Array.append_assoc]⟩

theorem size_le {r r' : Recorder} (h : Later r r') : r.frames.size ≤ r'.frames.size := by
  obtain ⟨more, hmore⟩ := h.grows
  rw [hmore, Array.size_append]
  exact Nat.le_add_right _ _

theorem getElem? {r r' : Recorder} (h : Later r r') {i : Nat} {f : Frame}
    (hf : r.frames[i]? = some f) : r'.frames[i]? = some f := by
  obtain ⟨more, hmore⟩ := h.grows
  obtain ⟨hlt, -⟩ := Array.getElem?_eq_some_iff.mp hf
  rw [hmore, Array.getElem?_append_left hlt]
  exact hf

theorem uncapped {r r' : Recorder} (h : Later r r') (hr' : r'.capped = false) :
    r.capped = false := by
  cases hr : r.capped with
  | false => rfl
  | true =>
    rw [h.capped hr] at hr'
    cases hr'

theorem of_same {r r' : Recorder} (hframes : r'.frames = r.frames)
    (hcap : r'.maxPositions = r.maxPositions) (hticks : r'.eventTicks = r.eventTicks)
    (hcapped : r'.capped = r.capped) : Later r r' := by
  refine ⟨hcap, hticks, hcapped.trans, ⟨#[], ?_⟩⟩
  rw [hframes, Array.append_empty]

theorem of_adds {r r' : Recorder} (h : Adds r r') : Later r r' :=
  ⟨by rw [h.same], by rw [h.same], h.capped, h.grows⟩

theorem act (a : Act) (r : Recorder) : Later r (a.perform r).1 := by
  cases a with
  | emit f => exact of_adds (Adds.emit r f)
  | endCycle =>
    simp only [Act.perform, setImplicitPeriod]
    split <;> exact of_same rfl rfl rfl rfl
  | _ => exact of_same rfl rfl rfl rfl

theorem sync (event : String) (r : Recorder) : Later r (Movement.sync event r) := by
  have hannounced : Later r (r.announce event) := of_same rfl rfl rfl rfl
  exact hannounced.trans (of_adds (Adds.emit _ _))

theorem follow (r : Recorder) : Later r r.follow := by
  unfold Recorder.follow
  split <;> exact of_same rfl rfl rfl rfl

theorem of_quiet {r r' : Recorder} (h : Quiet r r') : Later r r' := by
  rw [h]
  exact of_same rfl rfl rfl rfl

end Later

theorem kept_of_later {P : Recorder → Prop} (hP : ∀ r r' : Recorder, Later r r' → P r → P r') :
    Kept P where
  act a r := hP r _ (Later.act a r)
  sync event r := hP r _ (Later.sync event r)
  follow r := hP r _ (Later.follow r)
  quiet r r' hquiet := hP r r' (Later.of_quiet hquiet)

theorem kept_later (r₀ : Recorder) : Kept (Later r₀) := kept_of_later fun _ _ h h₀ => h₀.trans h

end Recorder

def Outcome.recorder : Outcome → Recorder
  | .running m => m.recorder
  | .stopped m _ => m.recorder

def Outcome.follow : Outcome → Outcome
  | .running m => .running (m.mapRecorder Recorder.follow)
  | .stopped m why => .stopped m why

namespace Machine
open Recorder

variable {settings : EngineSettings} {limit : Nat}

theorem recorder_enter (settings : EngineSettings) (m : Machine) (a : Activation) :
    (m.enter settings a).recorder = m.recorder := by
  unfold enter
  split <;> rfl

theorem eq_of_enter {m m' : Machine} {a : Activation} (h : m.enter settings a = .running m') :
    m' = { m with stack := a :: m.stack } := by
  unfold enter at h
  split at h
  · cases h
  · cases h
    rfl

theorem dispatch_of_effect {m : Machine} {site : Site} {s : Statement} {f : Recorder → Recorder}
    (h : s.effect? site = some f) : m.dispatch settings site s = .running (m.mapRecorder f) := by
  cases s <;> cases h <;> rfl

theorem quiet_dispatch (settings : EngineSettings) (m : Machine) {site : Site} {s : Statement}
    (h : s.effect? site = none) :
    Quiet m.recorder (m.dispatch settings site s).recorder := by
  cases s with
  | loop count body =>
    simp only [dispatch]
    split
    · exact Quiet.note _ _
    · rw [enterLoop, recorder_enter]
      exact (Quiet.note _ _).trans (Quiet.markLoopStart _ _)
  | conditional branches otherwise =>
    simp only [dispatch]
    split
    · exact Quiet.note _ _
    · rw [recorder_enter]
      exact Quiet.note _ _
  | breakLoop =>
    simp only [dispatch]
    split
    · exact (Quiet.unwindTo _ _ _).trans (Quiet.setSegment _ _)
    · exact Quiet.note _ _
  | continueLoop =>
    simp only [dispatch]
    split
    · exact (Quiet.unwindTo _ _ _).trans (Quiet.setSegment _ _)
    · exact Quiet.note _ _
  | define name body => exact Quiet.refl _
  | call name =>
    simp only [dispatch]
    split
    · rw [recorder_enter]
      exact Quiet.refl _
    · exact Quiet.note _ _
  | segment name body =>
    have henter := recorder_enter settings m ⟨site, body, 0, .segment name m.recorder.frames.size⟩
    simp only [dispatch]
    split
    · rename_i m' h'
      rw [h'] at henter
      rw [← henter]
      exact Quiet.setSegment _ _
    · rename_i m' why h'
      rw [h'] at henter
      rw [← henter]
      exact Quiet.refl _
  | _ => cases h

theorem recorder_countPass (m : Machine) : (m.countPass settings).1.recorder = m.recorder := by
  simp only [countPass]
  split <;> rfl

theorem recorder_nextPass (m : Machine) (top : Activation) (below : List Activation)
    (again : Bool) : (m.nextPass top below again).recorder = m.recorder := by
  cases again <;> rfl

theorem recorder_finishPass (m : Machine) (top : Activation) (below : List Activation)
    (site : Site) (passes : PassCount) :
    (m.finishPass settings top below site passes).recorder = m.recorder := by
  cases passes with
  | short total => exact recorder_nextPass _ _ _ _
  | long total =>
    simp only [finishPass]
    split
    · exact recorder_countPass _
    · exact (recorder_nextPass _ _ _ _).trans (recorder_countPass _)

theorem quiet_finishBlock (m : Machine) (top : Activation) (below : List Activation) :
    Quiet m.recorder (m.finishBlock settings top below).recorder := by
  unfold finishBlock
  split
  · rw [recorder_finishPass]
    exact Quiet.refl _
  · exact (Quiet.close _ _).trans (Quiet.setSegment _ _)

def fetch (m : Machine) (top : Activation) (below : List Activation) : Machine :=
  { m with stack := { top with index := top.index + 1 } :: below, steps := m.steps + 1 }

theorem turn_of_statement {m : Machine} {top : Activation} {below : List Activation}
    {s : Statement} (hs : top.block[top.index]? = some s) :
    m.turn settings top below =
      ((m.fetch top below).dispatch settings (top.index :: top.site) s).follow := by
  simp only [turn, hs]
  rfl

theorem turn_of_effect {m : Machine} {top : Activation} {below : List Activation} {s : Statement}
    {f : Recorder → Recorder} (hs : top.block[top.index]? = some s)
    (hf : s.effect? (top.index :: top.site) = some f) :
    m.turn settings top below =
      .running ((m.fetch top below).mapRecorder fun r => (f r).follow) := by
  rw [turn_of_statement hs, dispatch_of_effect hf]
  rfl

/-- A turn that executes no movement is quiet if the widget is where the last frame shows it. -/
theorem quiet_turn {m : Machine} {top : Activation} {below : List Activation}
    (h : ∀ s, top.block[top.index]? = some s → s.effect? (top.index :: top.site) = none)
    (hm : m.recorder.Following) : Quiet m.recorder (m.turn settings top below).recorder := by
  cases hs : top.block[top.index]? with
  | none =>
    simp only [turn, hs]
    exact quiet_finishBlock m top below
  | some s =>
    have hquiet := quiet_dispatch settings (m.fetch top below) (h s hs)
    rw [turn_of_statement hs]
    generalize (m.fetch top below).dispatch settings (top.index :: top.site) s = out at hquiet ⊢
    cases out with
    | running m' =>
      have hfollow : m'.recorder.follow = m'.recorder := follow_eq (hquiet.following hm)
      change Quiet m.recorder m'.recorder.follow
      rw [hfollow]
      exact hquiet
    | stopped m' why => exact hquiet

/-- What a turn does: one movement, or a quiet change. -/
theorem turn_cases (settings : EngineSettings) {m : Machine} (top : Activation) (below : List Activation)
    (hm : m.recorder.Following) :
    (∃ s f, top.block[top.index]? = some s ∧ s.effect? (top.index :: top.site) = some f ∧
      m.turn settings top below =
        .running ((m.fetch top below).mapRecorder fun r => (f r).follow)) ∨
    Quiet m.recorder (m.turn settings top below).recorder := by
  by_cases h : ∃ s f, top.block[top.index]? = some s ∧ s.effect? (top.index :: top.site) = some f
  · obtain ⟨s, f, hs, hf⟩ := h
    exact .inl ⟨s, f, hs, hf, turn_of_effect hs hf⟩
  · refine .inr (quiet_turn (fun s hs => ?_) hm)
    cases hf : s.effect? (top.index :: top.site) with
    | none => rfl
    | some f => exact absurd ⟨s, f, hs, hf⟩ h

theorem following_turn (settings : EngineSettings) {m : Machine} (top : Activation)
    (below : List Activation) (hm : m.recorder.Following) :
    (m.turn settings top below).recorder.Following := by
  rcases turn_cases settings top below hm with ⟨s, f, -, -, hturn⟩ | hquiet
  · rw [hturn]
    exact following_follow _
  · exact hquiet.following hm

theorem kept_turn {P : Recorder → Prop} (hP : Kept P) (settings : EngineSettings) {m : Machine}
    (top : Activation) (below : List Activation) (hm : m.recorder.Following) (h : P m.recorder) :
    P (m.turn settings top below).recorder := by
  rcases turn_cases settings top below hm with ⟨s, f, -, hf, hturn⟩ | hquiet
  · rw [hturn]
    exact hP.follow _ (hP.effect hf h)
  · exact hP.quiet _ _ hquiet h

theorem advance_eq_turn {m : Machine} {top : Activation} {below : List Activation}
    (hstack : m.stack = top :: below) (hsteps : m.steps < limit)
    (hframes : m.recorder.frames.size < limit) :
    m.advance settings limit = m.turn settings top below := by
  simp [advance, hstack, Nat.not_le_of_lt hsteps, Nat.not_le_of_lt hframes]

/-- A run stops before a turn, or the turn is what it does next. -/
theorem advance_cases (settings : EngineSettings) (limit : Nat) (m : Machine) :
    (∃ why, m.advance settings limit = .stopped m why) ∨
      ∃ top below, m.stack = top :: below ∧ m.steps < limit ∧ m.recorder.frames.size < limit := by
  cases hstack : m.stack with
  | nil => exact .inl ⟨.completed, by simp only [advance, hstack]⟩
  | cons top below =>
    by_cases hsteps : limit ≤ m.steps
    · exact .inl ⟨.stepLimit, by simp only [advance, hstack, if_pos hsteps]⟩
    · by_cases hframes : limit ≤ m.recorder.frames.size
      · exact .inl ⟨.frameLimit, by simp only [advance, hstack, if_neg hsteps, if_pos hframes]⟩
      · exact .inr ⟨top, below, rfl, by omega, by omega⟩

/-- A machine goes on only by a turn. -/
theorem turn_of_advance {m m' : Machine} (h : m.advance settings limit = .running m') :
    ∃ top below, m.stack = top :: below ∧ m.steps < limit ∧ m.recorder.frames.size < limit ∧
      m.turn settings top below = .running m' := by
  rcases advance_cases settings limit m with ⟨why, hstop⟩ | ⟨top, below, hstack, hsteps, hframes⟩
  · rw [hstop] at h
    cases h
  · rw [advance_eq_turn hstack hsteps hframes] at h
    exact ⟨top, below, hstack, hsteps, hframes, h⟩

theorem kept_advance {P : Recorder → Prop} (hP : Kept P) (settings : EngineSettings) (limit : Nat)
    {m : Machine} (hm : m.recorder.Following) (h : P m.recorder) :
    P (m.advance settings limit).recorder := by
  rcases advance_cases settings limit m with ⟨why, hstop⟩ | ⟨top, below, hstack, hsteps, hframes⟩
  · rw [hstop]
    exact h
  · rw [advance_eq_turn hstack hsteps hframes]
    exact kept_turn hP settings top below hm h

theorem following_advance (settings : EngineSettings) (limit : Nat) {m : Machine}
    (hm : m.recorder.Following) : (m.advance settings limit).recorder.Following := by
  rcases advance_cases settings limit m with ⟨why, hstop⟩ | ⟨top, below, hstack, hsteps, hframes⟩
  · rw [hstop]
    exact hm
  · rw [advance_eq_turn hstack hsteps hframes]
    exact following_turn settings top below hm

def Next (P : Statement → Prop) (m : Machine) : Prop :=
  ∀ top below s, m.stack = top :: below → top.block[top.index]? = some s → P s

abbrev Reaches (settings : EngineSettings) (limit : Nat) : Machine → Machine → Prop :=
  Relation.ReflTransGen fun m m' => m.advance settings limit = .running m'

theorem Reaches.run_eq {m m' : Machine} (h : Reaches settings limit m m') :
    m.run settings limit = m'.run settings limit := by
  induction h with
  | refl => rfl
  | tail _ hstep ih => exact ih.trans (run_of_running hstep)

/-- A run is a sequence of turns with a last one that stops it. -/
theorem reaches_end (settings : EngineSettings) (limit : Nat) (m : Machine) :
    ∃ m', Reaches settings limit m m' ∧
      m'.advance settings limit = .stopped (m.run settings limit).1 (m.run settings limit).2 := by
  induction m using run.induct settings limit with
  | case1 m m' why h =>
    rw [run_of_stopped h]
    exact ⟨m, .refl, h⟩
  | case2 m m' h ih =>
    rw [run_of_running h]
    obtain ⟨last, hreaches, hlast⟩ := ih
    exact ⟨last, .head h hreaches, hlast⟩

theorem following_reaches {m m' : Machine} (h : Reaches settings limit m m')
    (hm : m.recorder.Following) : m'.recorder.Following := by
  induction h with
  | refl => exact hm
  | tail _ hstep ih =>
    have hnext := following_advance settings limit ih
    rwa [hstep] at hnext

/-- What every turn keeps holds on the whole run. -/
theorem kept_reaches {P : Recorder → Prop} (hP : Kept P) {m m' : Machine}
    (h : Reaches settings limit m m') (hm : m.recorder.Following) (hr : P m.recorder) :
    P m'.recorder := by
  induction h with
  | refl => exact hr
  | tail hreaches hstep ih =>
    have hnext := kept_advance hP settings limit
      (following_reaches hreaches hm) ih
    rwa [hstep] at hnext

theorem kept_run {P : Recorder → Prop} (hP : Kept P) {m : Machine} (hm : m.recorder.Following)
    (hr : P m.recorder) : P (m.run settings limit).1.recorder := by
  obtain ⟨last, hreaches, hlast⟩ := reaches_end settings limit m
  have hend := kept_advance hP settings limit
    (following_reaches hreaches hm) (kept_reaches hP hreaches hm hr)
  rwa [hlast] at hend

/-- What holds after a turn holds at the end of the run. -/
theorem kept_run_of_advance {P : Recorder → Prop} (hP : Kept P) {m : Machine}
    (hm : m.recorder.Following) (h : P (m.advance settings limit).recorder) :
    P (m.run settings limit).1.recorder := by
  have hnext := following_advance settings limit hm
  cases hadvance : m.advance settings limit with
  | running m' =>
    rw [hadvance] at h hnext
    rw [run_of_running hadvance]
    exact kept_run hP hnext h
  | stopped m' why =>
    rw [hadvance] at h
    rw [run_of_stopped hadvance]
    exact h

/-- Settings and limits that no turn tells apart give the same run. -/
theorem run_congr {settings' : EngineSettings}
    (h : ∀ m : Machine, m.advance settings' limit = m.advance settings limit) (m : Machine) :
    m.run settings' limit = m.run settings limit := by
  induction m using run.induct settings limit with
  | case1 m m' why hstop => rw [run_of_stopped hstop, run_of_stopped ((h m).trans hstop)]
  | case2 m m' hstep ih => rw [run_of_running hstep, run_of_running ((h m).trans hstep), ih]

theorem quiet_closeAll (m : Machine) : Quiet m.recorder m.closeAll := by
  unfold closeAll
  generalize m.recorder = r
  induction m.stack generalizing r with
  | nil => exact Quiet.refl r
  | cons a below ih => exact (Quiet.close a r).trans (ih (close a r))

theorem recorded_closeAll (m : Machine) :
    m.closeAll.frames = m.recorder.frames ∧ m.closeAll.syncs = m.recorder.syncs := by
  rw [quiet_closeAll m]
  exact ⟨rfl, rfl⟩

end Machine

namespace Performance
open Machine

/-- What holds at the start and stays in every turn of the run holds at its end. -/
theorem outcome_induction {p : Performance} {maxSteps : Option Nat} {P : Recorder → Prop}
    (hstart : P p.recorder)
    (hturn : ∀ m, Reaches p.settings (p.limit maxSteps) (.start p.program p.recorder) m →
      P m.recorder → P (m.advance p.settings (p.limit maxSteps)).recorder) :
    P (p.outcome maxSteps).1.recorder := by
  have hreached : ∀ m, Reaches p.settings (p.limit maxSteps) (.start p.program p.recorder) m →
      P m.recorder := by
    intro m hm
    induction hm with
    | refl => exact hstart
    | tail hm hstep ih =>
      have hnext := hturn _ hm ih
      rwa [hstep] at hnext
  obtain ⟨last, hlast, hstop⟩ := reaches_end p.settings (p.limit maxSteps)
    (.start p.program p.recorder)
  have hend := hturn last hlast (hreached last hlast)
  rwa [hstop] at hend

theorem frames_perform (p : Performance) (maxSteps : Option Nat) :
    (p.perform maxSteps).timeline.frames =
      if (p.outcome maxSteps).1.recorder.frames.isEmpty then #[p.start.unmarked]
      else (p.outcome maxSteps).1.recorder.frames := by
  rw [← (recorded_closeAll (p.outcome maxSteps).1).1]
  rfl

theorem syncs_perform (p : Performance) (maxSteps : Option Nat) :
    (p.perform maxSteps).timeline.syncs = (p.outcome maxSteps).1.recorder.syncs.toList := by
  rw [← (recorded_closeAll (p.outcome maxSteps).1).2]
  rfl

end Performance
end Choreography
