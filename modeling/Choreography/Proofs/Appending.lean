import Choreography.Proofs.Segments
import Choreography.Proofs.Truncation
import Choreography.Proofs.Waiting

/-! # What is recorded stays

A statement adds frames, announcements and spans at the end of those that there are, and changes
none of them. The mark of an arrival is put on a frame after it was added, but it is always the last
frame that the same statement has added: a movement that is cut short at the cap marks nothing. -/
namespace Choreography

/-- The statements that mark an arrival. -/
def Statement.marksArrival : Statement → Bool
  | .scrollClip _ => true
  | .slide _ => true
  | _ => false

namespace Recorder

/-- Frames, announcements and closed spans stay as they are; more may stand after them. -/
structure Appends (r r' : Recorder) : Prop where
  frames : r.frames.toList <+: r'.frames.toList
  syncs : r.syncs.toList <+: r'.syncs.toList
  spans : r.spans.toList <+: r'.spans.toList

namespace Appends

theorem of_same {r r' : Recorder} (hframes : r'.frames = r.frames) (hsyncs : r'.syncs = r.syncs)
    (hspans : r'.spans = r.spans) : Appends r r' := by
  refine ⟨?_, ?_, ?_⟩
  · rw [hframes]
  · rw [hsyncs]
  · rw [hspans]

theorem refl (r : Recorder) : Appends r r := of_same rfl rfl rfl

theorem trans {r₁ r₂ r₃ : Recorder} (h₁ : Appends r₁ r₂) (h₂ : Appends r₂ r₃) : Appends r₁ r₃ :=
  ⟨h₁.frames.trans h₂.frames, h₁.syncs.trans h₂.syncs, h₁.spans.trans h₂.spans⟩

theorem note (r : Recorder) (notices : List Notice) : Appends r (r.note notices) :=
  of_same rfl rfl rfl

theorem setSegment (r : Recorder) (name : Option String) : Appends r (r.setSegment name) :=
  of_same rfl rfl rfl

theorem follow (r : Recorder) : Appends r r.follow := by
  rw [follow_same]
  exact of_same rfl rfl rfl

theorem markLoopStart (passes : PassCount) (r : Recorder) :
    Appends r (Machine.markLoopStart passes r) := by
  unfold Machine.markLoopStart
  split
  · exact refl r
  · split
    · exact of_same rfl rfl rfl
    · exact refl r

theorem close (a : Activation) (r : Recorder) : Appends r (Machine.close a r) := by
  unfold Machine.close
  split
  · refine ⟨List.prefix_refl _, List.prefix_refl _, ?_⟩
    rw [closeSpan, Array.toList_push]
    exact List.prefix_append _ _
  · exact refl r

theorem unwindTo (resume : Activation → List Activation → List Activation)
    (stack : List Activation) (r : Recorder) : Appends r (Machine.unwindTo resume stack r).2 := by
  induction stack generalizing r with
  | nil => exact refl r
  | cons a below ih =>
    rw [Machine.unwindTo]
    split
    · exact refl r
    · exact (close a r).trans (ih _)

/-- A statement that only concerns the recorder closes no span; an announcement adds its own. -/
theorem effect {site : Site} {s : Statement} {f : Recorder → Recorder}
    (hf : s.effect? site = some f) (r : Recorder) : Appends r (f r) := by
  refine ⟨((kept_later r).effect hf (.refl r)).begins, ?_, ?_⟩
  · rcases Statement.composed_of_effect hf with ⟨event, -, rfl⟩ | hcomposed
    · rw [syncs_sync, Array.toList_push]
      exact List.prefix_append _ _
    · rw [syncs_of_composed hcomposed]
  · rw [(Named.effect hf r).spans]

end Appends

/-! ### Arrivals -/

/-- Frames are added, none of which is an arrival. -/
def Passes (r r' : Recorder) : Prop :=
  ∃ more, r'.frames.toList = r.frames.toList ++ more ∧ ∀ f ∈ more, f.terminal = false

/-- Frames are added, of which only the last one may be an arrival. -/
def Arrives (r r' : Recorder) : Prop :=
  ∃ more, r'.frames.toList = r.frames.toList ++ more ∧ ∀ f ∈ more.dropLast, f.terminal = false

variable {r r' : Recorder} {f : Frame}

theorem terminal_label (r : Recorder) (f : Frame) : (r.label f).terminal = f.terminal := by
  unfold label
  split <;> rfl

theorem terminal_of_mem_filler {g : Frame} (hg : g ∈ r.filler f) : g.terminal = false := by
  unfold filler Smoothing.inserted at hg
  split at hg
  · split at hg
    · split at hg
      · obtain ⟨k, -, rfl⟩ := List.mem_map.mp hg
        rfl
      · cases hg
    · cases hg
  · cases hg

theorem Passes.of_same (h : r'.frames = r.frames) : Passes r r' := by
  refine ⟨[], ?_, fun f hf => absurd hf List.not_mem_nil⟩
  rw [h, List.append_nil]

theorem Passes.finishScroll (h : Passes r r') (site : Site) : Passes r (r'.finishScroll site) := h

theorem Passes.setImplicitPeriod (h : Passes r r') (ticks : Nat) :
    Passes r (r'.setImplicitPeriod ticks) := by
  unfold Passes
  rw [frames_setImplicitPeriod]
  exact h

theorem Passes.arrives (h : Passes r r') : Arrives r r' := by
  obtain ⟨more, hmore, hplain⟩ := h
  exact ⟨more, hmore, fun f hf => hplain f (List.mem_of_mem_dropLast hf)⟩

theorem Passes.builds : Builds Passes fun f => f.terminal = false where
  refl _ := of_same rfl
  trans := by
    rintro r₁ r₂ r₃ ⟨more, hmore, hplain⟩ ⟨more', hmore', hplain'⟩
    refine ⟨more ++ more', ?_, List.forall_mem_append.mpr ⟨hplain, hplain'⟩⟩
    rw [hmore', hmore, List.append_assoc]
  emit r f hf := by
    refine ⟨_, toList_emit r f, fun g hg => ?_⟩
    rcases List.mem_append.mp (List.mem_of_mem_take hg) with hg | hg
    · exact terminal_of_mem_filler hg
    · rw [List.mem_singleton.mp hg, terminal_label]
      exact hf
  plain _ _ := rfl

theorem Passes.fitsPaused : Builds.FitsPaused fun f => f.terminal = false := fun _ _ => rfl

theorem Arrives.setClip (h : Arrives r r') (site : Site) (t : Travel) :
    Arrives r (r'.setClip site t) := h

theorem Arrives.setSlide (h : Arrives r r') (t : Travel) : Arrives r (r'.setSlide t) := h

/-- Whatever frame is added, what smoothing puts before it is no arrival. -/
theorem Arrives.emit (r : Recorder) (f : Frame) : Arrives r (r.emit f).1 := by
  refine ⟨_, toList_emit r f, fun g hg => terminal_of_mem_filler (r := r) (f := f) ?_⟩
  rw [List.dropLast_take_eq_take_dropLast, List.dropLast_concat] at hg
  exact List.mem_of_mem_take hg

theorem Passes.trans_arrives {r₁ r₂ r₃ : Recorder} (h₁ : Passes r₁ r₂) (h₂ : Arrives r₂ r₃) :
    Arrives r₁ r₃ := by
  obtain ⟨more, hmore, hplain⟩ := h₁
  obtain ⟨more', hmore', hplain'⟩ := h₂
  refine ⟨more ++ more', ?_, fun f hf => ?_⟩
  · rw [hmore', hmore, List.append_assoc]
  · rw [List.dropLast_append] at hf
    split at hf
    · exact hplain f (List.mem_of_mem_dropLast hf)
    · exact (List.forall_mem_append.mpr ⟨hplain, hplain'⟩) f hf

end Recorder

namespace Movement
open Recorder

variable {r : Recorder}

theorem arrives_land {f : Frame} (hf : f.terminal = false) (hold : Nat) :
    Arrives r (land f hold r).1 := by
  have hheld := Passes.builds.emitHeld r hf hold
  unfold land
  split <;> rename_i r' hr' <;> rw [hr'] at hheld
  · exact hheld.trans_arrives (Arrives.emit r' _)
  · exact hheld.arrives

/-- No frame before the one at the distance is an arrival. -/
theorem arrives_goOn (origin : Frame) (direction : Direction) {p : Pace} (hold : Nat) {moved : Int}
    (hmoved : moved < p.distance) (n : Nat) :
    Arrives r (goOn p (approach origin direction p.distance hold) r moved n).1 := by
  induction n generalizing r moved with
  | zero => exact (Passes.of_same rfl).arrives
  | succ n ih =>
    rw [goOn, if_pos hmoved]
    have hle : p.next moved ≤ p.distance := Int.min_le_right _ _
    by_cases hlast : p.next moved = p.distance
    · have hreached : p.distance ≤ p.next moved := Int.le_of_eq hlast.symm
      have hland := arrives_land (r := r) (f := along origin direction (p.next moved)) rfl hold
      simp only [approach, if_pos hlast, goOn_of_le hreached]
      split <;> rename_i r' hr' <;> rw [hr'] at hland <;> exact hland
    · have hnext : p.next moved < p.distance := by omega
      have hheld := Passes.builds.emitHeld r (f := along origin direction (p.next moved)) rfl
        (hold + 1)
      simp only [approach, if_neg hlast]
      split <;> rename_i r' hr' <;> rw [hr'] at hheld
      · exact hheld.trans_arrives (ih hnext)
      · exact hheld.arrives

/-- The mark of an arrival is only put on the frame that ends the movement. -/
theorem arrives_proceed {t : Travel} {p : Pace} (hinterval : 0 < p.interval)
    (hmoved : t.moved < p.distance) : Arrives r (proceed t p r).1 := by
  obtain ⟨hold, hhold⟩ : ∃ hold, p.interval = hold + 1 := ⟨p.interval - 1, by omega⟩
  rw [proceed_eq hhold hmoved]
  exact arrives_goOn t.origin t.direction (p := { p with direction := t.direction }) hold hmoved
    stepBound

theorem arrives_cumulate (t : Travel) {p : Pace} (hinterval : 0 < p.interval) :
    Arrives r (cumulate t p r).1 := by
  unfold cumulate
  split
  · rename_i hmoved
    exact arrives_proceed hinterval hmoved
  · split
    · exact (Passes.of_same rfl).arrives
    · unfold settle
      dsimp only
      split
      · exact (Passes.of_same rfl).arrives
      · exact Arrives.emit r _

/-- A cumulative movement adds its frames, or only reports. -/
theorem arrives_atPace {command : String} {m : Motion} {body : Pace → Recorder → Recorder}
    (hbody : ∀ (p : Pace) (r : Recorder), 0 < p.interval → Arrives r (body p r)) :
    Arrives r (atPace command m (overDistance command body) r) := by
  have hnoted : ∀ notices, Passes r (r.note notices) := fun _ => .of_same rfl
  by_cases h : (paceIn r.env m).Moves
  · rw [atPace_of_moves h]
    exact (hnoted _).trans_arrives (hbody _ _ h.2.1)
  · have hnothing : ∃ notices, atPace command m (overDistance command body) r = r.note notices :=
      atPace_of_not_moves h
    obtain ⟨notices, hnotices⟩ := hnothing
    rw [hnotices]
    exact (hnoted notices).arrives

theorem arrives_scrollClip (site : Site) (m : Motion) : Arrives r (scrollClip site m r) := by
  refine arrives_atPace fun p r hinterval => ?_
  have hcumulated := arrives_cumulate (r := r)
    ((Assoc.find? site r.clips).getD (departure r p)) hinterval
  exact hcumulated.setClip site _

theorem arrives_slide (m : Motion) : Arrives r (slide m r) := by
  refine arrives_atPace fun p r hinterval => ?_
  have hcumulated := arrives_cumulate (r := r)
    ((r.slide.filter (·.direction == p.direction)).getD (departure r p)) hinterval
  exact hcumulated.setSlide _

end Movement

open Recorder Movement

/-- The other statements mark no arrival. -/
theorem Recorder.Passes.effect {site : Site} {s : Statement} {f : Recorder → Recorder}
    (hf : s.effect? site = some f) (hs : s.marksArrival = false) (r : Recorder) :
    Passes r (f r) := by
  have hnoted : ∀ notices, Passes r (r.note notices) := fun _ => of_same rfl
  cases s <;> cases hf
  case move m =>
    refine atPace_cases hnoted fun notices => ?_
    split
    · exact hnoted notices
    · exact builds.trans (hnoted notices) (builds.stride _ _ _)
  case moveTo start finish step interval =>
    unfold moveTo
    dsimp only
    split
    · rw [noteIntegers, note_note]
      exact hnoted _
    · exact builds.trans (hnoted _) (builds.way _ rfl rfl _ _)
  case pause duration =>
    exact builds.trans (hnoted _) (builds.emitPause fitsPaused _ r.current _)
  case resetPosition => exact builds.emit r _ rfl
  case sync event => exact builds.emit (r.announce event) _ rfl
  case waitFor event maxTicks =>
    have hpaused := builds.trans (hnoted ([maxTicks].flatMap r.env.evalIntegerFaults))
      (builds.emitPause fitsPaused _ r.current
        (waitLength r event (r.env.evalInteger maxTicks).toNat))
    exact builds.trans hpaused (builds.emit _ _ rfl)
  case scrollClip m => cases hs
  case slide m => cases hs
  case scrollBounce m =>
    refine distance_cases hnoted fun notices => ?_
    have hrebound := builds.trans (hnoted notices)
      (builds.rebound (r.note notices) fitsPaused (paceIn r.env m))
    exact hrebound.setImplicitPeriod _
  case scrollLoop m =>
    unfold scrollLoop
    split
    · exact builds.refl r
    · refine atPace_cases hnoted fun notices => ?_
      unfold Movement.wrap
      dsimp only
      split
      · rw [note_note]
        exact hnoted _
      · have hstride : ∀ count, Passes r (stride (paceIn r.env m) count (r.note notices)) :=
          fun count => builds.trans (hnoted notices) (builds.stride _ _ count)
        exact ((hstride _).finishScroll site).setImplicitPeriod _
  case period e =>
    have hargument : Passes r (r.noteIntegers [e]) := hnoted _
    unfold declarePeriod
    dsimp only
    split <;> exact builds.trans hargument (of_same rfl)

namespace Machine

variable {settings : EngineSettings} {limit : Nat} {m m' : Machine} {site : Site} {s : Statement}

theorem appends_dispatch : Appends m.recorder (m.dispatch settings site s).recorder := by
  cases hf : s.effect? site with
  | some f =>
    rw [dispatch_of_effect hf]
    exact .effect hf m.recorder
  | none =>
    cases s with
    | loop count body =>
      simp only [dispatch]
      split
      · exact .note _ _
      · rw [enterLoop, recorder_enter]
        exact (Appends.note _ _).trans (.markLoopStart _ _)
    | conditional branches otherwise =>
      simp only [dispatch]
      split
      · exact .note _ _
      · rw [recorder_enter]
        exact .note _ _
    | breakLoop =>
      simp only [dispatch]
      split
      · exact (Appends.unwindTo _ _ _).trans (.setSegment _ _)
      · exact .note _ _
    | continueLoop =>
      simp only [dispatch]
      split
      · exact (Appends.unwindTo _ _ _).trans (.setSegment _ _)
      · exact .note _ _
    | define name body => exact .refl _
    | call name =>
      simp only [dispatch]
      split
      · rw [recorder_enter]
        exact .refl _
      · exact .note _ _
    | segment name body =>
      have henter := recorder_enter settings m ⟨site, body, 0, .segment name m.recorder.frames.size⟩
      simp only [dispatch]
      split <;> rename_i hentered <;> rw [hentered] at henter <;> rw [← henter]
      · exact .setSegment _ _
      · exact .refl _
    | _ => cases hf

theorem passes_dispatch (hs : s.marksArrival = false) :
    Passes m.recorder (m.dispatch settings site s).recorder := by
  cases hf : s.effect? site with
  | some f =>
    rw [dispatch_of_effect hf]
    exact Passes.effect hf hs m.recorder
  | none => exact .of_same (quiet_dispatch settings m hf).frames

theorem arrives_dispatch : Arrives m.recorder (m.dispatch settings site s).recorder := by
  cases s with
  | scrollClip motion => exact arrives_scrollClip site motion
  | slide motion => exact arrives_slide motion
  | _ => exact (passes_dispatch rfl).arrives

/-- A statement that is executed leaves all earlier frames, announcements and closed spans as they
are. Of the frames that it adds only the last one may be an arrival, and none is if the statement
marks no arrival. -/
theorem dispatch_only_appends (settings : EngineSettings) (m : Machine) (site : Site)
    (s : Statement) :
    let r := (m.dispatch settings site s).recorder
    Appends m.recorder r ∧ Arrives m.recorder r ∧
      (s.marksArrival = false → Passes m.recorder r) :=
  ⟨appends_dispatch, arrives_dispatch, passes_dispatch⟩

/-! ### Whole runs -/

theorem appends_turn (top : Activation) (below : List Activation) :
    Appends m.recorder (m.turn settings top below).recorder := by
  cases hs : top.block[top.index]? with
  | none =>
    simp only [turn, hs, finishBlock]
    split
    · rw [recorder_finishPass]
      exact .refl _
    · exact (Appends.close _ _).trans (.setSegment _ _)
  | some s =>
    have hdispatched : Appends (m.fetch top below).recorder
      ((m.fetch top below).dispatch settings (top.index :: top.site) s).recorder := appends_dispatch
    rw [turn_of_statement hs]
    generalize (m.fetch top below).dispatch settings (top.index :: top.site) s = out
      at hdispatched ⊢
    cases out with
    | running n => exact hdispatched.trans (.follow _)
    | stopped n why => exact hdispatched

theorem appends_advance : Appends m.recorder (m.advance settings limit).recorder := by
  rcases advance_cases settings limit m with ⟨why, hstop⟩ | ⟨top, below, hstack, hsteps, hframes⟩
  · rw [hstop]
    exact .refl _
  · rw [advance_eq_turn hstack hsteps hframes]
    exact appends_turn top below

theorem appends_run (settings : EngineSettings) (limit : Nat) (m : Machine) :
    Appends m.recorder (m.run settings limit).1.recorder := by
  induction m using run.induct settings limit with
  | case1 m m' why h =>
    have hlast : Appends m.recorder (m.advance settings limit).recorder := appends_advance
    rw [run_of_stopped h]
    rwa [h] at hlast
  | case2 m m' h ih =>
    have hnext : Appends m.recorder (m.advance settings limit).recorder := appends_advance
    rw [h] at hnext
    rw [run_of_running h]
    exact hnext.trans ih

theorem appends_closeAll (m : Machine) : Appends m.recorder m.closeAll := by
  unfold closeAll
  generalize m.recorder = r
  induction m.stack generalizing r with
  | nil => exact .refl r
  | cons a below ih => exact (Appends.close a r).trans (ih _)

end Machine

/-- Whatever a run has recorded when it gets to a machine stands at the front of its timeline. -/
theorem Performance.recorded_at_front {p : Performance} {maxSteps : Option Nat} {m : Machine}
    (h : Machine.Reaches p.settings (p.limit maxSteps) (.start p.program p.recorder) m) :
    let t := (p.perform maxSteps).timeline
    m.recorder.frames.toList <+: t.frames.toList ∧ m.recorder.syncs.toList <+: t.syncs ∧
      m.recorder.spans.toList <+: t.segments := by
  have hrun := Machine.appends_run p.settings (p.limit maxSteps) m
  rw [← h.run_eq] at hrun
  have hall : Appends m.recorder (p.outcome maxSteps).1.closeAll :=
    hrun.trans (Machine.appends_closeAll _)
  refine ⟨?_, hall.syncs, hall.spans⟩
  rw [frames_perform]
  split
  · rename_i hempty
    have hnone := hrun.frames
    change _ <+: (p.outcome maxSteps).1.recorder.frames.toList at hnone
    rw [Array.isEmpty_iff.mp hempty] at hnone
    rw [List.prefix_nil.mp hnone]
    exact List.nil_prefix
  · exact hrun.frames

end Choreography
