import Choreography.Proofs.Continuity
import Choreography.Proofs.LoopPasses
import Choreography.Proofs.Spans

/-! # Segments of a run

Segments are left in five ways: at the end of their block, by a break, by a continue, and with the
whole run when it stops early or is aborted. All of them close activations from the top of the
stack, so the spans are closed from the inside out, and the name that new frames get is always that
of the innermost segment on the stack. -/
namespace Choreography

namespace Recorder

/-- Frames may have been added, under the name of the active segment, and no segment has been
entered or left. -/
structure Named (r r' : Recorder) : Prop where
  spans : r'.spans = r.spans
  active : r'.activeSegment = r.activeSegment
  frames : Extends r.frames r'.frames r.activeSegment

namespace Named

theorem of_same {r r' : Recorder} (hspans : r'.spans = r.spans)
    (hactive : r'.activeSegment = r.activeSegment) (hframes : r'.frames = r.frames) :
    Named r r' := by
  refine ⟨hspans, hactive, Nat.le_of_eq (congrArg Array.size hframes.symm), fun i f hf => ?_⟩
  rw [hframes] at hf
  exact .inl ⟨f, hf, rfl⟩

theorem refl (r : Recorder) : Named r r := of_same rfl rfl rfl

theorem trans {r₁ r₂ r₃ : Recorder} (h₁ : Named r₁ r₂) (h₂ : Named r₂ r₃) : Named r₁ r₃ where
  spans := h₂.spans.trans h₁.spans
  active := h₂.active.trans h₁.active
  frames := by
    refine ⟨Nat.le_trans h₁.frames.size_le h₂.frames.size_le, fun i f hf => ?_⟩
    rcases h₂.frames.names i f hf with ⟨g, hg, hsame⟩ | ⟨hnew, hname⟩
    · rw [hsame]
      exact h₁.frames.names i g hg
    · exact .inr ⟨Nat.le_trans h₁.frames.size_le hnew, hname.trans h₁.active⟩

/-- A frame without a name of its own and what goes before it are named after the active segment. -/
theorem segment_of_filler {r : Recorder} {f g : Frame} (hf : f.segment = none)
    (hg : g ∈ r.filler f ++ [r.label f]) : g.segment = r.activeSegment := by
  have hlabel : (r.label f).segment = r.activeSegment := by simp [label, hf]
  rcases List.mem_append.mp hg with hg | hg
  · rw [filler] at hg
    split at hg
    · unfold Smoothing.inserted at hg
      split at hg
      · split at hg
        · obtain ⟨k, -, rfl⟩ := List.mem_map.mp hg
          exact hlabel
        · cases hg
      · cases hg
    · cases hg
  · rw [List.mem_singleton.mp hg]
    exact hlabel

theorem emit (r : Recorder) {f : Frame} (hf : f.segment = none) : Named r (r.emit f).1 := by
  have hframes := r.toList_emit f
  have hkept := List.take_subset (r.maxPositions - r.frames.size) (r.filler f ++ [r.label f])
  have hsame := (Adds.emit r f).same
  refine ⟨by rw [hsame], by rw [hsame], ?_, fun i g hg => ?_⟩
  · rw [← Array.length_toList, ← Array.length_toList, hframes, List.length_append]
    omega
  · rw [← Array.getElem?_toList, hframes] at hg
    rcases Nat.lt_or_ge i r.frames.toList.length with hlt | hge
    · rw [List.getElem?_append_left hlt, Array.getElem?_toList] at hg
      exact .inl ⟨g, hg, rfl⟩
    · rw [List.getElem?_append_right hge] at hg
      exact .inr ⟨hge, segment_of_filler hf (hkept (List.mem_of_getElem? hg))⟩

theorem act (a : Act) (r : Recorder) (ha : a.Unnamed) : Named r (a.perform r).1 := by
  cases a with
  | emit f => exact emit r ha
  | endCycle =>
    simp only [Act.perform, setImplicitPeriod]
    split <;> exact of_same rfl rfl rfl
  | _ => exact of_same rfl rfl rfl

theorem sync (event : String) (r : Recorder) : Named r (Movement.sync event r) := by
  have hannounced : Named r (r.announce event) := of_same rfl rfl rfl
  exact hannounced.trans (emit _ rfl)

theorem follow (r : Recorder) : Named r r.follow := by
  unfold Recorder.follow
  split <;> exact of_same rfl rfl rfl

theorem note (r : Recorder) (notices : List Notice) : Named r (r.note notices) :=
  of_same rfl rfl rfl

theorem markLoopStart (passes : PassCount) (r : Recorder) :
    Named r (Machine.markLoopStart passes r) := by
  unfold Machine.markLoopStart
  split
  · exact refl r
  · split
    · exact of_same rfl rfl rfl
    · exact refl r

theorem effect {site : Site} {s : Statement} {f : Recorder → Recorder} (h : s.effect? site = some f)
    (r : Recorder) : Named r (f r) := by
  rcases Statement.composed_of_effect h with ⟨event, -, rfl⟩ | hf
  · exact sync event r
  · exact Scripted.invariant_of_unnamed (fun a g ha hg => hg.trans (act a g ha)) hf (refl r)

end Named
end Recorder

def Outcome.machine : Outcome → Machine
  | .running m => m
  | .stopped m _ => m

theorem Outcome.recorder_machine (out : Outcome) : out.machine.recorder = out.recorder := by
  cases out <;> rfl

namespace Machine
open Recorder

/-! ### The stack -/

def opening? (a : Activation) : Option Opening :=
  match a.kind with
  | .segment name start => some ⟨name, start⟩
  | _ => none

def openings (stack : List Activation) : List Opening := stack.filterMap opening?

variable {settings : EngineSettings} {limit : Nat} {m m' : Machine} {r : Recorder} {site : Site}
  {a top : Activation} {below stack : List Activation} {opened entered : List Opening}

theorem openings_cons (a : Activation) (below : List Activation) :
    openings (a :: below) = (opening? a).toList ++ openings below := by
  cases h : opening? a <;> simp [openings, h]

theorem opening?_of_isLoop (h : a.isLoop = true) : opening? a = none := by
  unfold Activation.isLoop at h
  unfold opening?
  split at h
  · rename_i hkind
    simp only [hkind]
  · cases h

theorem activeSegment_eq (stack : List Activation) :
    activeSegment stack = (openings stack).head?.map Opening.name := by
  induction stack with
  | nil => rfl
  | cons a below ih =>
    obtain ⟨site, block, index, kind⟩ := a
    cases kind with
    | block => exact ih
    | segment name start => rfl
    | loop site passes => exact ih

/-- The spans of all segments that have been entered and left, and the others are open. -/
structure Accounts (r : Recorder) (opened entered : List Opening) : Prop where
  labels : Labels r.spans.toList opened r.frames
  all : (r.spans.toList.map Span.opening ++ opened).Perm entered

namespace Accounts

theorem close (h : Accounts r (openings (a :: below)) entered) :
    Accounts (close a r) (openings below) entered := by
  obtain ⟨site, block, index, kind⟩ := a
  cases kind with
  | block => exact h
  | segment name start =>
    obtain ⟨hlabels, hall⟩ := h
    have hspans : (r.closeSpan name start).spans.toList =
        r.spans.toList ++ [(⟨name, start⟩ : Opening).until r.frames.size] := Array.toList_push
    refine ⟨?_, ?_⟩
    · exact hspans ▸ hlabels.leave
    · change ((r.closeSpan name start).spans.toList.map Span.opening ++ _).Perm entered
      rw [hspans, List.map_append, List.append_assoc]
      exact hall
  | loop site passes => exact h

theorem unwindTo {resume : Activation → List Activation → List Activation}
    (hresume : resume = leaveLoop ∨ resume = endPass) (h : Accounts r (openings stack) entered) :
    Accounts (unwindTo resume stack r).2 (openings (unwindTo resume stack r).1) entered := by
  induction stack generalizing r with
  | nil => exact h
  | cons a below ih =>
    rw [Machine.unwindTo]
    split
    · rename_i hloop
      have hnone := opening?_of_isLoop hloop
      rcases hresume with rfl | rfl
      · rwa [openings_cons, hnone] at h
      · exact h
    · exact ih h.close

/-- At the end all open segments are closed. -/
theorem closeAll (h : Accounts r (openings stack) entered) :
    Accounts (stack.foldl (fun r a => Machine.close a r) r) [] entered := by
  induction stack generalizing r with
  | nil => exact h
  | cons a below ih => exact ih h.close

end Accounts

/-- The machine has closed or still holds open each segment that has been entered, and new frames
get the name of the innermost open one. -/
structure Marked (m : Machine) (entered : List Opening) : Prop where
  accounts : Accounts m.recorder (openings m.stack) entered
  active : m.recorder.activeSegment = activeSegment m.stack

namespace Marked

theorem named (h : m.Marked entered) (hr : Named m.recorder m'.recorder)
    (hstack : openings m'.stack = openings m.stack) : m'.Marked entered := by
  have hactive : activeSegment m'.stack = activeSegment m.stack := by
    rw [activeSegment_eq, activeSegment_eq, hstack]
  refine ⟨⟨?_, ?_⟩, hr.active.trans (h.active.trans hactive.symm)⟩
  · rw [hr.spans, hstack]
    have hframes := hr.frames
    rw [h.active, activeSegment_eq] at hframes
    exact h.accounts.labels.extend hframes
  · rw [hr.spans, hstack]
    exact h.accounts.all

/-- The stack is left as it is after closing, and new frames are named after it. -/
theorem of_accounts (h : Accounts r (openings stack) entered) (sequences : Table Sequence)
    (counters : List (Site × Int)) (recent : List (Int × Int)) (steps : Nat) :
    Marked ⟨r.setSegment (activeSegment stack), stack, sequences, counters, recent, steps⟩
      entered := ⟨⟨h.labels, h.all⟩, rfl⟩

theorem perm {entered' : List Opening} (h : m.Marked entered) (hperm : entered.Perm entered') :
    m.Marked entered' := ⟨⟨h.accounts.labels, h.accounts.all.trans hperm⟩, h.active⟩

end Marked

/-! ### Turns -/

/-- The segment that the next turn enters, unless that turn stops the run. -/
def opened? (m : Machine) : Option Opening :=
  match m.stack with
  | [] => none
  | top :: _ =>
      match top.block[top.index]? with
      | some (.segment name _) => some ⟨name, m.recorder.frames.size⟩
      | _ => none

def MarkedAfter (out : Outcome) (now : Option Opening) (entered : List Opening) : Prop :=
  match out with
  | .running m => m.Marked (now.toList ++ entered)
  | .stopped m _ => m.Marked entered

theorem MarkedAfter.of_machine {out : Outcome} (h : out.machine.Marked entered) :
    MarkedAfter out none entered := by
  cases out <;> exact h

theorem MarkedAfter.follow {out : Outcome} {now : Option Opening} (h : MarkedAfter out now entered) :
    MarkedAfter out.follow now entered := by
  cases out with
  | running m => exact h.named (Named.follow m.recorder) rfl
  | stopped m why => exact h

theorem openings_finishPass (hstack : m.stack = top :: below) (hloop : top.isLoop = true)
    (passes : PassCount) :
    openings (m.finishPass settings top below site passes).machine.stack = openings m.stack := by
  have htop : ∀ i, openings ({ top with index := i } :: below) = openings below := by
    intro i
    have hnone : opening? { top with index := i } = none := opening?_of_isLoop hloop
    rw [openings_cons, hnone]
    rfl
  have hnext : ∀ (n : Machine) (again : Bool),
      openings (n.nextPass top below again).stack = openings m.stack := by
    intro n again
    rw [hstack, htop top.index]
    cases again with
    | true => exact htop 0
    | false => rfl
  cases passes with
  | short total => exact hnext _ _
  | long total =>
    simp only [finishPass]
    split
    · exact congrArg (fun c : Control => openings c.stack) (control_countPass _ _)
    · exact hnext _ _

namespace Marked

theorem enter (h : m.Marked entered) (ha : opening? a = none) :
    (m.enter settings a).machine.Marked entered := by
  unfold Machine.enter
  split
  · exact h
  · refine h.named (Named.refl _) ?_
    change openings (a :: m.stack) = _
    rw [openings_cons, ha]
    rfl

theorem unwind {resume : Activation → List Activation → List Activation}
    (hresume : resume = leaveLoop ∨ resume = endPass) (h : m.Marked entered) :
    (m.unwind resume).Marked entered :=
  of_accounts (h.accounts.unwindTo hresume) _ _ _ _

theorem mapRecorder (h : m.Marked entered) (f : Recorder → Recorder)
    (hf : Named m.recorder (f m.recorder)) : (m.mapRecorder f).Marked entered := h.named hf rfl

theorem note (h : m.Marked entered) (faults : Recorder → List Notice) :
    (m.mapRecorder fun r => r.note (faults r)).Marked entered := h.mapRecorder _ (Named.note _ _)

/-- Statements other than segments leave the open segments alone or close the innermost ones. -/
theorem dispatch {s : Statement} (h : m.Marked entered)
    (hs : ∀ name body, s ≠ .segment name body) :
    (m.dispatch settings site s).machine.Marked entered := by
  cases heffect : s.effect? site with
  | some f =>
    rw [dispatch_of_effect heffect]
    exact h.mapRecorder f (Named.effect heffect _)
  | none =>
    cases s with
    | loop count body =>
      simp only [Machine.dispatch]
      have hnoted := h.note fun r => passFaults r.env count
      split
      · exact hnoted
      · rename_i total _
        have hmarked := hnoted.mapRecorder _ (Named.markLoopStart (passCount settings total) _)
        exact enter (hmarked.named (Named.refl _) rfl) rfl
    | conditional branches otherwise =>
      have hnoted := h.note fun r => branchFaults r.env branches
      simp only [Machine.dispatch]
      split
      · exact hnoted
      · exact hnoted.enter rfl
    | breakLoop =>
      simp only [Machine.dispatch]
      split
      · exact h.unwind (.inl rfl)
      · exact h.note fun _ => _
    | continueLoop =>
      simp only [Machine.dispatch]
      split
      · exact h.unwind (.inr rfl)
      · exact h.note fun _ => _
    | define name body => exact h.named (Named.refl _) rfl
    | call name =>
      simp only [Machine.dispatch]
      split
      · exact h.enter rfl
      · exact h.note fun _ => _
    | segment name body => exact absurd rfl (hs name body)
    | _ => cases heffect

/-- A segment is opened at the next frame, unless the stack is as deep as it may be. -/
theorem segment (h : m.Marked entered) (name : String) (body : Block) :
    MarkedAfter (m.dispatch settings site (.segment name body))
      (some ⟨name, m.recorder.frames.size⟩) entered := by
  have hopen : Accounts m.recorder (openings
      (⟨site, body, 0, .segment name m.recorder.frames.size⟩ :: m.stack))
      (⟨name, m.recorder.frames.size⟩ :: entered) :=
    ⟨h.accounts.labels.enter name, List.perm_middle.trans (h.accounts.all.cons _)⟩
  by_cases hdepth : settings.maxFrameDepth ≤ m.stack.length
  · simp only [Machine.dispatch, Machine.enter, if_pos hdepth]
    exact h
  · simp only [Machine.dispatch, Machine.enter, if_neg hdepth]
    exact of_accounts hopen _ _ _ _

theorem finishBlock (h : m.Marked entered) (hstack : m.stack = top :: below) :
    (m.finishBlock settings top below).machine.Marked entered := by
  have haccounts : Accounts m.recorder (openings (top :: below)) entered := hstack ▸ h.accounts
  unfold Machine.finishBlock
  split
  · rename_i site passes hkind
    have hloop : top.isLoop = true := by simp [Activation.isLoop, hkind]
    refine h.named ?_ (openings_finishPass hstack hloop passes)
    rw [Outcome.recorder_machine, recorder_finishPass]
    exact Named.refl _
  · exact of_accounts haccounts.close _ _ _ _

theorem turn (h : m.Marked entered) (hstack : m.stack = top :: below) :
    MarkedAfter (m.turn settings top below) m.opened? entered := by
  have hfetched : (m.fetch top below).Marked entered := by
    refine h.named (Named.refl _) ?_
    rw [hstack]
    rfl
  cases hs : top.block[top.index]? with
  | none =>
    have hnone : m.opened? = none := by simp [opened?, hstack, hs]
    rw [hnone]
    simp only [Machine.turn, hs]
    exact .of_machine (h.finishBlock hstack)
  | some s =>
    rw [turn_of_statement hs]
    refine MarkedAfter.follow ?_
    cases s with
    | segment name body =>
      have hnow : m.opened? = some ⟨name, m.recorder.frames.size⟩ := by simp [opened?, hstack, hs]
      rw [hnow]
      exact hfetched.segment name body
    | _ =>
      have hnone : m.opened? = none := by simp [opened?, hstack, hs]
      rw [hnone]
      exact .of_machine (hfetched.dispatch fun _ _ hsegment => by cases hsegment)

theorem advance (settings : EngineSettings) (limit : Nat) (h : m.Marked entered) :
    MarkedAfter (m.advance settings limit) m.opened? entered := by
  rcases advance_cases settings limit m with ⟨why, hstop⟩ | ⟨top, below, hstack, hsteps, hframes⟩
  · rw [hstop]
    exact h
  · rw [advance_eq_turn hstack hsteps hframes]
    exact h.turn hstack

end Marked

/-! ### Runs -/

theorem Marked.path {ms : List Machine} (h : m.Marked entered)
    (hpath : Path settings limit m ms m') : m'.Marked (ms.filterMap opened? ++ entered) := by
  induction hpath generalizing entered with
  | nil => exact h
  | @cons m next m' ms hstep _ ih =>
    have hnext := h.advance settings limit
    rw [hstep] at hnext
    have hsplit : (m :: ms).filterMap opened? = m.opened?.toList ++ ms.filterMap opened? := by
      cases hopened : m.opened? <;> simp [hopened]
    rw [hsplit, List.append_assoc]
    exact (ih hnext).perm (List.perm_append_comm_assoc _ _ _)

/-- A run passes some machines, and the turn of the last one stops it. -/
theorem exists_path_run (settings : EngineSettings) (limit : Nat) (m : Machine) :
    ∃ ms last, Path settings limit m ms last ∧
      last.advance settings limit = .stopped (m.run settings limit).1 (m.run settings limit).2 := by
  induction m using run.induct settings limit with
  | case1 m m' why h =>
    rw [run_of_stopped h]
    exact ⟨[], m, .nil m, h⟩
  | case2 m m' h ih =>
    rw [run_of_running h]
    obtain ⟨ms, last, hpath, hlast⟩ := ih
    exact ⟨m :: ms, last, .cons h hpath, hlast⟩

end Machine

namespace Performance
open Machine

theorem marked_start (p : Performance) : (Machine.start p.program p.recorder).Marked [] where
  accounts := ⟨.start, .refl _⟩
  active := rfl

theorem accounts_outcome {p : Performance} {maxSteps : Option Nat} {ms : List Machine}
    {last : Machine}
    (hpath : Path p.settings (p.limit maxSteps) (.start p.program p.recorder) ms last)
    (hlast : last.advance p.settings (p.limit maxSteps) =
      .stopped (p.outcome maxSteps).1 (p.outcome maxSteps).2) :
    Accounts (p.outcome maxSteps).1.closeAll [] (ms.filterMap opened?) := by
  have hend := ((marked_start p).path hpath).advance p.settings (p.limit maxSteps)
  rw [hlast, List.append_nil] at hend
  exact hend.accounts.closeAll

/-- However a run ends, each segment that it has entered has one span, any two spans are nested or
apart, and each frame is named after the first span that covers it. -/
theorem segments_label_frames (p : Performance) (maxSteps : Option Nat) :
    (p.perform maxSteps).timeline.Labelled ∧
    (∀ s ∈ (p.perform maxSteps).timeline.segments,
      s.start ≤ s.finish ∧ s.finish ≤ (p.outcome maxSteps).1.recorder.frames.size) ∧
    ∃ ms last, Path p.settings (p.limit maxSteps) (.start p.program p.recorder) ms last ∧
      last.advance p.settings (p.limit maxSteps) =
        .stopped (p.outcome maxSteps).1 (p.outcome maxSteps).2 ∧
      ((p.perform maxSteps).timeline.segments.map Span.opening).Perm (ms.filterMap opened?) := by
  obtain ⟨ms, last, hpath, hlast⟩ := exists_path_run p.settings (p.limit maxSteps)
    (.start p.program p.recorder)
  have haccounts := accounts_outcome hpath hlast
  obtain ⟨hlabels, hall⟩ := haccounts
  rw [(recorded_closeAll (p.outcome maxSteps).1).1] at hlabels
  rw [List.append_nil] at hall
  refine ⟨⟨fun i f hf => ?_, hlabels.nested⟩, hlabels.closed, ms, last, hpath, hlast, hall⟩
  rw [frames_perform] at hf
  split at hf
  · -- the one frame of an empty run has no name
    rename_i hempty
    have hsize := Array.isEmpty_iff_size_eq_zero.mp hempty
    have hnone : nameAt (p.perform maxSteps).timeline.segments i = none :=
      nameAt_eq_none fun s hs => Nat.le_trans (hlabels.closed s hs).2 (by omega)
    have hf' : f = p.start.unmarked := by simpa using Array.mem_of_getElem? hf
    rw [hnone, hf']
    rfl
  · have hname := hlabels.names i f hf
    rwa [openNameAt, List.find?_nil, Option.map_none, Option.or_none] at hname

/-- A break leaves two segments, the inner one first. -/
example :
    let breather := playing [
      .loop .infinite [
        .segment "lap" [.sync "go", .segment "rest" [.pause (.int 2), .breakLoop]]]]
    (breather.perform none).timeline.segments = [⟨"rest", 1, 3⟩, ⟨"lap", 0, 3⟩] ∧
      (breather.perform none).timeline.frames.map Frame.segment =
        #[some "lap", some "rest", some "rest"] := by
  cbv

end Performance
end Choreography
