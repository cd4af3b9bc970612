import Choreography.Proofs.Pauses

/-! # The pauses of a run

Every movement adds frames outside of pauses, and a pause, a wait and a bounce add whole pauses
besides. So the frames of a run that drops none of them are bracketed, and its pauses are those that
it has executed. -/
namespace Choreography

theorem Rest.markLast {place : Int × Int} {k : Nat} {still : Array Frame} (h : Rest place k still) :
    Rest place k (still.modify k Frame.asTerminal) where
  size := by rw [Array.size_modify, h.size]
  frame i hi := by
    obtain ⟨f, hf, hin⟩ := h.frame i hi
    rw [Array.getElem?_modify, hf]
    split
    · exact ⟨f.asTerminal, rfl, hin.pause, hin.coords, hin.ends⟩
    · exact ⟨f, rfl, hin⟩

theorem Bracketed.markLast {frames : Array Frame} {pauses : List Pause}
    (h : Bracketed frames pauses) :
    Bracketed (frames.modify (frames.size - 1) Frame.asTerminal) pauses := by
  cases h with
  | nil => exact .nil
  | moving h hf =>
    rw [Recorder.modify_last_push]
    exact h.moving ⟨hf.pause, hf.pauseEnd⟩
  | @rest frames still pauses place k h hstill =>
    have hlast : (frames ++ still).modify ((frames ++ still).size - 1) Frame.asTerminal =
        frames ++ still.modify k Frame.asTerminal := by
      have hsize := hstill.size
      apply Array.ext_getElem?
      intro i
      grind
    rw [hlast]
    exact h.rest hstill.markLast

theorem Frame.Unpaused.label (r : Recorder) {f : Frame} (h : f.Unpaused) :
    (r.label f).Unpaused := by
  unfold Recorder.label
  split
  · exact h
  · exact ⟨h.pause, h.pauseEnd⟩

namespace Recorder

variable (r : Recorder)

theorem unpaused_of_mem_filler {f c : Frame} (hc : c ∈ r.filler f) : c.Unpaused := by
  unfold filler at hc
  split at hc
  · cases hback : r.frames.back? with
    | none =>
      rw [hback] at hc
      cases hc
    | some g =>
      rw [hback] at hc
      have hbare := (Smoothing.bridges_of_mem_inserted hc).bare
      rw [hbare]
      exact ⟨rfl, rfl⟩
  · cases hc

theorem rest_pauseFrames (segment : Option String) (place : Frame) (k : Nat) :
    Rest place.coords k (pauseFrames segment place (k + 1)).toArray where
  size := length_pauseFrames segment place (k + 1)
  frame i hi := by
    obtain ⟨f, hf, hpause, hcoords, hend⟩ := getElem?_pauseFrames segment place (Nat.lt_succ_of_le hi)
    rw [List.getElem?_toArray]
    exact ⟨f, hf, hpause, hcoords, hend.trans Nat.succ_inj⟩

/-- Unless a frame is dropped, pauses of these lengths are added, and else only frames outside of
pauses. -/
def Rests (lengths : List Nat) (r r' : Recorder) : Prop :=
  r'.capped = false → r.capped = false ∧ ∀ pauses, Bracketed r.frames pauses →
    ∃ more, Bracketed r'.frames (pauses ++ more) ∧ more.map Pause.length = lengths

namespace Rests

variable {r} {r₁ r₂ r₃ : Recorder} {first later : List Nat}

theorem of_bracketed (huncapped : r₂.capped = false → r₁.capped = false)
    (h : r₂.capped = false → ∀ pauses, Bracketed r₁.frames pauses → Bracketed r₂.frames pauses) :
    Rests [] r₁ r₂ := by
  intro hr₂
  refine ⟨huncapped hr₂, fun pauses hpauses => ⟨[], ?_, rfl⟩⟩
  rw [List.append_nil]
  exact h hr₂ pauses hpauses

theorem of_same (hframes : r₂.frames = r₁.frames) (hcapped : r₂.capped = r₁.capped) :
    Rests [] r₁ r₂ :=
  of_bracketed (fun h => hcapped ▸ h) fun _ _ h => hframes ▸ h

theorem trans (h₁ : Rests first r₁ r₂) (h₂ : Rests later r₂ r₃) : Rests (first ++ later) r₁ r₃ := by
  intro hr₃
  obtain ⟨hr₂, hlater⟩ := h₂ hr₃
  obtain ⟨hr₁, hfirst⟩ := h₁ hr₂
  refine ⟨hr₁, fun pauses hpauses => ?_⟩
  obtain ⟨more₁, hmore₁, hlengths₁⟩ := hfirst pauses hpauses
  obtain ⟨more₂, hmore₂, hlengths₂⟩ := hlater _ hmore₁
  refine ⟨more₁ ++ more₂, ?_, ?_⟩
  · rw [← List.append_assoc]
    exact hmore₂
  · rw [List.map_append, hlengths₁, hlengths₂]

theorem trans_nil (h₁ : Rests first r₁ r₂) (h₂ : Rests [] r₂ r₃) : Rests first r₁ r₃ := by
  have h := h₁.trans h₂
  rwa [List.append_nil] at h

theorem note (r : Recorder) (notices : List Notice) : Rests [] r (r.note notices) := of_same rfl rfl

theorem emit (r : Recorder) {f : Frame} (hf : f.Unpaused) : Rests [] r (r.emit f).1 := by
  refine of_bracketed (Adds.emit r f).uncapped fun h pauses hpauses => ?_
  rw [emit_eq_add h]
  exact (hpauses.pushAll fun c => unpaused_of_mem_filler r).moving (hf.label r)

/-- The mark of an arrival is none of a pause, whatever frame it is put on. -/
theorem markTerminal (r : Recorder) : Rests [] r r.markTerminal :=
  of_bracketed id fun _ _ h => h.markLast

theorem builds : Builds (Rests []) Frame.Unpaused where
  refl _ := of_same rfl rfl
  trans h₁ h₂ := h₁.trans h₂
  emit r _ hf := emit r hf
  plain _ _ := ⟨rfl, rfl⟩

/-- A pause without ticks adds nothing. -/
theorem emitPause (r : Recorder) (place : Frame) (n : Nat) :
    Rests ([n].filter (0 < ·)) r (r.emitPause place n) := by
  intro h
  refine ⟨(Adds.emitPause r place n).uncapped h, fun pauses hpauses => ?_⟩
  rw [emitPause_eq_addAll h, addAll_pauseFrames]
  cases n with
  | zero =>
    refine ⟨[], ?_, rfl⟩
    simpa [pauseFrames] using hpauses
  | succ k =>
    refine ⟨_, hpauses.rest (rest_pauseFrames r.activeSegment place k), ?_⟩
    have hlength : r.frames.size + k + 1 - r.frames.size = k + 1 := by omega
    simp [Pause.length, hlength]

end Rests
end Recorder

open Recorder Movement

/-- The lengths of the pauses that a statement makes, also of those without ticks. -/
def Statement.pauses (r : Recorder) : Statement → List Nat
  | .pause duration => [(r.env.evalInteger duration).toNat]
  | .waitFor event maxTicks => [waitLength r event (r.env.evalInteger maxTicks).toNat]
  | .scrollBounce m =>
      let p := paceIn r.env m
      if p.Moves then [p.pauseAtEnds, p.pauseAtEnds] else []
  | _ => []

namespace Recorder.Rests

theorem setImplicitPeriod (r : Recorder) (ticks : Nat) : Rests [] r (r.setImplicitPeriod ticks) :=
  of_same (frames_setImplicitPeriod r ticks) (capped_setImplicitPeriod r ticks)

/-- A bounce rests at both of its ends. -/
theorem bounce (p : Pace) (r : Recorder) :
    Rests ([p.pauseAtEnds, p.pauseAtEnds].filter (0 < ·)) r (bounce p r) := by
  have horigin : r.current.Unpaused := ⟨rfl, rfl⟩
  have hboundary : (along r.current p.direction p.distance).Unpaused := ⟨rfl, rfl⟩
  have hout := builds.walk r r.current p 0
  have hrested := hout.trans (emitPause _ (along r.current p.direction p.distance) p.pauseAtEnds)
  have hturned := hrested.trans_nil (emit _ hboundary)
  have hback := hturned.trans_nil
    (builds.comeBack _ horigin (along r.current p.direction p.distance) p)
  have hend := hback.trans (emitPause _ r.current p.pauseAtEnds)
  have hboth : [p.pauseAtEnds, p.pauseAtEnds].filter (0 < ·) =
      [p.pauseAtEnds].filter (0 < ·) ++ [p.pauseAtEnds].filter (0 < ·) :=
    List.filter_append [p.pauseAtEnds] [p.pauseAtEnds]
  rw [hboth, bounce_eq]
  exact hend.trans_nil (setImplicitPeriod _ _)

theorem waitFor (event : String) (maxTicks : Expr) (r : Recorder) :
    Rests ([waitLength r event (r.env.evalInteger maxTicks).toNat].filter (0 < ·)) r
      (waitFor event maxTicks r) := by
  have hunpaused : r.current.Unpaused := ⟨rfl, rfl⟩
  have hrested := (note r ([maxTicks].flatMap r.env.evalIntegerFaults)).trans
    (emitPause _ r.current (waitLength r event (r.env.evalInteger maxTicks).toNat))
  exact hrested.trans_nil (emit _ hunpaused)

theorem of_effect {site : Site} {s : Statement} {f : Recorder → Recorder}
    (hf : s.effect? site = some f) (r : Recorder) :
    Rests ((s.pauses r).filter (0 < ·)) r (f r) := by
  cases s <;> cases hf
  case move m =>
    refine atPace_cases (note r) fun notices => ?_
    split
    · exact note r notices
    · exact (note r notices).trans (builds.stride _ _ _)
  case moveTo start finish step interval =>
    unfold moveTo
    dsimp only
    split
    · exact (note r _).trans (note _ _)
    · exact (note r _).trans (builds.way _ ⟨rfl, rfl⟩ ⟨rfl, rfl⟩ _ _)
  case pause duration => exact (note r _).trans (emitPause _ _ _)
  case resetPosition => exact emit r ⟨rfl, rfl⟩
  case sync event =>
    have hannounced : Rests [] r (r.announce event) := of_same rfl rfl
    exact hannounced.trans (emit _ ⟨rfl, rfl⟩)
  case waitFor event maxTicks => exact waitFor event maxTicks r
  case scrollClip m =>
    refine distance_cases (note r) fun notices => ?_
    have hcumulated := builds.cumulate (r.note notices) markTerminal (fun _ _ => ⟨rfl, rfl⟩)
    exact ((note r notices).trans (hcumulated _ _)).trans (of_same rfl rfl)
  case slide m =>
    refine distance_cases (note r) fun notices => ?_
    have hcumulated := builds.cumulate (r.note notices) markTerminal (fun _ _ => ⟨rfl, rfl⟩)
    exact ((note r notices).trans (hcumulated _ _)).trans (of_same rfl rfl)
  case scrollBounce m =>
    by_cases hmoves : (paceIn r.env m).Moves
    · rw [scrollBounce, atPace_of_moves hmoves]
      simp only [Statement.pauses, if_pos hmoves]
      exact (note r _).trans (bounce _ _)
    · obtain ⟨notices, hnotices⟩ : ∃ notices, scrollBounce m r = r.note notices :=
        atPace_of_not_moves hmoves
      rw [hnotices]
      simp only [Statement.pauses, if_neg hmoves]
      exact note r notices
  case scrollLoop m =>
    unfold scrollLoop
    split
    · exact of_same rfl rfl
    · refine atPace_cases (note r) fun notices => ?_
      unfold Movement.wrap
      dsimp only
      split
      · rw [note_note]
        exact note r _
      · have hfinished : ∀ r' : Recorder, Rests [] r' (r'.finishScroll site) :=
          fun _ => of_same rfl rfl
        exact (((note r notices).trans (builds.stride _ _ _)).trans (hfinished _)).trans
          (setImplicitPeriod _ _)
  case period e =>
    unfold declarePeriod
    dsimp only
    split
    · exact of_same rfl rfl
    · exact of_same rfl rfl

end Recorder.Rests

/-! ### Whole runs -/

theorem Statement.pauses_of_effect {site : Site} {s : Statement} (h : s.effect? site = none)
    (r : Recorder) : s.pauses r = [] := by
  cases s <;> first | rfl | cases h

/-- The lengths of the pauses that a machine makes next, without those that nobody sees. -/
def Machine.pauses (m : Machine) : List Nat :=
  match m.next? with
  | some (_, s) => (s.pauses m.recorder).filter (0 < ·)
  | none => []

namespace Recorder

/-- Unless a frame has been dropped, the frames are bracketed, and the pauses are those that the
machines so far made. -/
def Paused (seen : List Machine) (r : Recorder) : Prop :=
  r.capped = false → ∃ pauses, Bracketed r.frames pauses ∧
    pauses.map Pause.length = seen.flatMap Machine.pauses

theorem Paused.rests {seen : List Machine} {m : Machine} {r : Recorder}
    (h : Paused seen m.recorder) (hrests : Rests m.pauses m.recorder r) :
    Paused (seen ++ [m]) r := by
  intro hr
  obtain ⟨hm, hadds⟩ := hrests hr
  obtain ⟨pauses, hpauses, hlengths⟩ := h hm
  obtain ⟨more, hmore, hlengths'⟩ := hadds pauses hpauses
  refine ⟨pauses ++ more, hmore, ?_⟩
  rw [List.map_append, hlengths, hlengths', List.flatMap_append, List.flatMap_singleton]

def FullIfCapped (r : Recorder) : Prop := r.capped = true → r.maxPositions ≤ r.frames.size

theorem FullIfCapped.emit {r : Recorder} (h : r.FullIfCapped) (f : Frame) :
    (r.emit f).1.FullIfCapped := by
  have hsize := (Later.of_adds (Adds.emit r f)).size_le
  cases hemit : r.emit f with
  | mk r' kept =>
    rw [hemit] at hsize
    intro hcapped
    cases kept with
    | false => exact (full_of_emit hemit).1
    | true =>
      rw [eq_of_emit hemit] at hcapped hsize ⊢
      exact Nat.le_trans (h hcapped) hsize

theorem kept_fullIfCapped : Kept FullIfCapped := by
  refine kept_of_emit (fun _ f h => h.emit f) fun r r' hsame h => ?_
  unfold FullIfCapped
  rw [hsame.frames, hsame.cap, hsame.capped]
  exact h

end Recorder

namespace Performance
open Machine

variable {p : Performance} {maxSteps : Option Nat}

theorem uncapped_of_room
    (h : (p.outcome maxSteps).1.recorder.frames.size < p.settings.maxPositions) :
    (p.outcome maxSteps).1.recorder.capped = false := by
  have hfollowing := following_start p.env p.eventTicks p.settings.maxPositions p.settings.smoothing
  have hfull : (p.outcome maxSteps).1.recorder.FullIfCapped :=
    kept_run kept_fullIfCapped hfollowing fun hcapped => by cases hcapped
  have hlater : Later p.recorder (p.outcome maxSteps).1.recorder :=
    kept_run (kept_later p.recorder) hfollowing (.refl _)
  rw [← Bool.not_eq_true]
  intro hcapped
  have hcap := hfull hcapped
  rw [hlater.cap] at hcap
  exact absurd h (Nat.not_lt.mpr hcap)

theorem paused_turns {turns : List Machine}
    (hturns : Turns p.settings (p.limit maxSteps) (.start p.program p.recorder) turns
      (p.outcome maxSteps)) :
    Paused turns (p.outcome maxSteps).1.recorder := by
  refine recorded_induction hturns (fun _ => ⟨[], .nil, rfl⟩) ?_ ?_
  · intro seen m site s f _ _ hnext hf hseen
    have heffect : Rests m.pauses m.recorder (f m.recorder) := by
      rw [Machine.pauses, hnext]
      exact Rests.of_effect hf m.recorder
    have hfollow : Rests [] (f m.recorder) (f m.recorder).follow := by
      rw [follow_same]
      exact .of_same rfl rfl
    exact hseen.rests (heffect.trans_nil hfollow)
  · intro seen m r hnext hquiet hseen
    -- all statements that make pauses only concern the recorder
    have hpauses : m.pauses = [] := by
      unfold Machine.pauses
      split
      · rename_i site s hm
        rw [Statement.pauses_of_effect (hnext site s hm)]
        rfl
      · rfl
    have hrests : Rests m.pauses m.recorder r := by
      rw [hpauses, hquiet]
      exact .of_same rfl rfl
    exact hseen.rests hrests

theorem bracketed_perform {pauses : List Pause}
    (h : Bracketed (p.outcome maxSteps).1.recorder.frames pauses) :
    Bracketed (p.perform maxSteps).timeline.frames pauses := by
  rw [frames_perform]
  split
  · rename_i hempty
    rw [Array.isEmpty_iff.mp hempty] at h
    have hfallback : p.start.unmarked.Unpaused := ⟨rfl, rfl⟩
    exact h.moving hfallback
  · exact h

/-- A run that adds fewer frames than the cap allows shows the pauses that it has executed: their
starts and ends alternate, the frames between are those that are paused, and they hold the widget
in place. -/
theorem pauses_are_bracketed
    (h : (p.outcome maxSteps).1.recorder.frames.size < p.settings.maxPositions) :
    let t := (p.perform maxSteps).timeline
    ∃ pauses, t.Reads t.total pauses ∧
      ∃ turns, Turns p.settings (p.limit maxSteps) (.start p.program p.recorder) turns
          (p.outcome maxSteps) ∧ pauses.map Pause.length = turns.flatMap Machine.pauses := by
  intro t
  obtain ⟨turns, hturns⟩ := exists_turns p.settings (p.limit maxSteps)
    (.start p.program p.recorder)
  obtain ⟨pauses, hbracketed, hlengths⟩ := paused_turns hturns (uncapped_of_room h)
  have hreads : t.Reads t.total pauses :=
    Timeline.reads_of_bracketed (bracketed_perform hbracketed) fun _ _ hf => hf
  exact ⟨pauses, hreads, turns, hturns, hlengths⟩

/-- Two pauses in a row, one without ticks, and a bounce that rests at both ends. -/
def dozing : Performance := playing [
  .pause (.int 2),
  .pause .one,
  .pause (.int 0),
  .scrollBounce { Motion.along .right (.int 2) with pauseAtEnds := .one }]

theorem pauses_are_bracketed_dozing :
    (dozing.outcome none).1.recorder.frames.size < dozing.settings.maxPositions ∧
      ∃ pauses, (dozing.perform none).timeline.Reads (dozing.perform none).timeline.total pauses ∧
        pauses.flatMap Pause.edges = [.start 0, .finish 1, .start 2, .finish 2, .start 5, .finish 5,
          .start 9, .finish 9] := by
  have hsize : (dozing.outcome none).1.recorder.frames.size = 10 := by cbv
  have hroom : (dozing.outcome none).1.recorder.frames.size < dozing.settings.maxPositions := by
    rw [hsize]
    decide
  obtain ⟨pauses, hreads, -⟩ := pauses_are_bracketed hroom
  refine ⟨hroom, pauses, hreads, ?_⟩
  rw [← hreads.edges]
  cbv

end Performance
end Choreography
