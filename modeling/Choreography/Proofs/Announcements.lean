import Choreography.Proofs.Executions

/-! # The ticks of announcements

An announcement notes the index of the next frame and then adds a frame. The tick is the index of
that frame as long as nothing goes before it and there is room for it: the widget is where the last
frame shows it, so smoothing puts nothing in between, and a run whose step limit is within the cap
stops before there is no room. -/
namespace Choreography
namespace Recorder

variable {r r' : Recorder} {start : Int × Int}

/-- Where the widget is before a frame: where the frame before it shows it, or where it starts. -/
def placeBefore (start : Int × Int) (frames : Array Frame) : Nat → Option (Int × Int)
  | 0 => some start
  | tick + 1 => frames[tick]?.map Frame.coords

/-- A frame without marks holds the widget where it is. -/
def Holds (start : Int × Int) (frames : Array Frame) (tick : Nat) : Prop :=
  ∃ f, frames[tick]? = some f ∧ f.pause = false ∧ f.pauseEnd = false ∧ f.terminal = false ∧
    f.reset = false ∧ placeBefore start frames tick = some f.coords

theorem Holds.retained {frames frames' : Array Frame} {tick : Nat} (h : Holds start frames tick)
    (hretained : ∀ (i : Nat) (f : Frame), frames[i]? = some f → frames'[i]? = some f) :
    Holds start frames' tick := by
  obtain ⟨f, hf, hpause, hend, hterminal, hreset, hplace⟩ := h
  refine ⟨f, hretained _ f hf, hpause, hend, hterminal, hreset, ?_⟩
  cases tick with
  | zero => exact hplace
  | succ tick =>
    obtain ⟨g, hg, hcoords⟩ := Option.map_eq_some_iff.mp hplace
    rw [placeBefore, hretained _ g hg, Option.map_some, hcoords]

theorem Holds.lt_size {frames : Array Frame} {tick : Nat} (h : Holds start frames tick) :
    tick < frames.size := by
  obtain ⟨f, hf, -⟩ := h
  exact (Array.getElem?_eq_some_iff.mp hf).1

/-! ### The place of the widget -/

/-- The widget has not left its start before there is a frame. -/
def Unmoved (start : Int × Int) (r : Recorder) : Prop :=
  r.frames = #[] → r.current.coords = start

theorem Unmoved.of_adds (h : Adds r r') (hr : Unmoved start r) : Unmoved start r' := by
  intro hempty
  obtain ⟨more, hmore⟩ := h.grows
  rw [h.same]
  apply hr
  rw [hempty] at hmore
  exact (Array.append_eq_empty_iff.mp hmore.symm).1

theorem kept_unmoved (start : Int × Int) : Kept (Unmoved start) where
  act a r h := by
    cases a with
    | emit f => exact h.of_adds (Adds.emit r f)
    | endCycle =>
      simp only [Act.perform, setImplicitPeriod]
      split <;> exact h
    | _ => exact h
  sync event r h := by
    have hannounced : Unmoved start (r.announce event) := h
    exact hannounced.of_adds (Adds.emit _ _)
  follow r h := by
    intro hempty
    rw [frames_follow] at hempty
    have hsame : r.follow = r := by simp [follow, hempty]
    rw [hsame]
    exact h hempty
  quiet r r' hquiet h := by
    intro hempty
    rw [hquiet.frames] at hempty
    have hsame : r'.current = r.current := by rw [current, hquiet.env, current]
    rw [hsame]
    exact h hempty

theorem placeBefore_tick (hr : r.Following) (hstart : Unmoved start r) :
    placeBefore start r.frames r.tick = some r.current.coords := by
  cases hsize : r.tick with
  | zero => rw [placeBefore, hstart (Array.eq_empty_of_size_eq_zero hsize)]
  | succ last =>
    have hback : r.frames.back? = r.frames[last]? := by
      rw [Array.back?_eq_getElem?, ← tick, hsize, Nat.add_sub_cancel]
    have hlt : last < r.frames.size := by
      rw [← tick, hsize]
      exact Nat.lt_succ_self last
    obtain ⟨f, hf⟩ : ∃ f, r.frames[last]? = some f := ⟨_, Array.getElem?_eq_getElem hlt⟩
    rw [placeBefore, hf, Option.map_some, hr f (hback.trans hf)]
    rfl

/-- An announcement for which there is room holds the widget for a frame. -/
theorem frames_sync_of_room (event : String) (hr : r.Following)
    (hroom : r.frames.size < r.maxPositions) :
    (Movement.sync event r).frames = r.frames.push (r.label r.current) := by
  have hfollowing : (r.announce event).Following := hr
  have hfiller : (r.announce event).filler r.current = [] := filler_of_following hfollowing rfl
  have hroom : (r.announce event).frames.size + [(r.announce event).label r.current].length ≤
      (r.announce event).maxPositions := hroom
  change ((r.announce event).emit r.current).1.frames = _
  rw [emit_eq_pushAll, hfiller, List.nil_append, pushAll_of_le hroom]
  rfl

theorem holds_sync (event : String) (hr : r.Following) (hstart : Unmoved start r)
    (hroom : r.frames.size < r.maxPositions) :
    Holds start (Movement.sync event r).frames r.tick := by
  rw [frames_sync_of_room event hr hroom]
  refine ⟨r.label r.current, Array.getElem?_push_size, rfl, rfl, rfl, rfl, ?_⟩
  rw [coords_label, ← placeBefore_tick hr hstart]
  cases hsize : r.tick with
  | zero => rfl
  | succ last =>
    have hne : last ≠ r.frames.size := by
      rw [← tick, hsize]
      exact Nat.ne_of_lt (Nat.lt_succ_self last)
    rw [placeBefore, placeBefore, Array.getElem?_push, if_neg hne]

end Recorder

namespace Machine
open Recorder

/-- What a machine announces next, with the index of the next frame. -/
def announcement? (m : Machine) : Option SyncEvent :=
  match m.next? with
  | some (_, .sync event) => some ⟨event, m.recorder.tick⟩
  | _ => none

/-- What has been announced is what the machines so far announced, at ticks that increase and each
of which has a frame of its own. -/
structure Announces (start : Int × Int) (seen : List Machine) (r : Recorder) : Prop where
  syncs : r.syncs.toList = seen.filterMap announcement?
  increasing : (r.syncs.toList.map SyncEvent.tick).Pairwise (· < ·)
  holds : ∀ e ∈ r.syncs.toList, Holds start r.frames e.tick

namespace Announces

variable {start : Int × Int} {seen : List Machine} {m : Machine} {r r' : Recorder}

/-- A turn that announces nothing. -/
theorem silent (h : Announces start seen r) (hm : m.announcement? = none) (hlater : Later r r')
    (hsyncs : r'.syncs = r.syncs) : Announces start (seen ++ [m]) r' where
  syncs := by
    rw [hsyncs, h.syncs, List.filterMap_append, List.filterMap_cons_none hm, List.filterMap_nil,
      List.append_nil]
  increasing := by
    rw [hsyncs]
    exact h.increasing
  holds e he := by
    rw [hsyncs] at he
    exact (h.holds e he).retained fun _ _ => hlater.getElem?

/-- A turn that announces an event. -/
theorem announced (h : Announces start seen r) {event : String}
    (hm : m.announcement? = some ⟨event, r.tick⟩) (hlater : Later r r')
    (hsyncs : r'.syncs = r.syncs.push ⟨event, r.tick⟩) (hholds : Holds start r'.frames r.tick) :
    Announces start (seen ++ [m]) r' where
  syncs := by
    rw [hsyncs, Array.toList_push, h.syncs, List.filterMap_append, List.filterMap_cons_some hm,
      List.filterMap_nil]
  increasing := by
    rw [hsyncs, Array.toList_push, List.map_append, List.pairwise_append]
    refine ⟨h.increasing, List.pairwise_singleton _ _, ?_⟩
    intro tick htick last hlast
    obtain ⟨e, he, rfl⟩ := List.mem_map.mp htick
    cases List.mem_singleton.mp hlast
    exact (h.holds e he).lt_size
  holds e he := by
    rw [hsyncs, Array.toList_push, List.mem_append, List.mem_singleton] at he
    rcases he with he | rfl
    · exact (h.holds e he).retained fun _ _ => hlater.getElem?
    · exact hholds

theorem announcement?_of_effect {site : Site} {s : Statement} (hnext : m.next? = some (site, s))
    (hs : ∀ event, s ≠ .sync event) : m.announcement? = none := by
  unfold announcement?
  rw [hnext]
  split
  · rename_i event heq
    cases heq
    exact absurd rfl (hs event)
  · rfl

/-- A statement that only concerns the recorder, executed where there is room for a frame. -/
theorem effect (h : Announces start seen m.recorder) {site : Site} {s : Statement}
    {f : Recorder → Recorder} (hnext : m.next? = some (site, s)) (hf : s.effect? site = some f)
    (hfollowing : m.recorder.Following) (hstart : Unmoved start m.recorder)
    (hroom : m.recorder.frames.size < m.recorder.maxPositions) :
    Announces start (seen ++ [m]) (f m.recorder).follow := by
  have hlater : Later m.recorder (f m.recorder).follow :=
    ((kept_later m.recorder).effect hf (.refl _)).trans (Later.follow _)
  by_cases hs : ∃ event, s = .sync event
  · obtain ⟨event, rfl⟩ := hs
    cases hf
    have hm : m.announcement? = some ⟨event, m.recorder.tick⟩ := by rw [announcement?, hnext]
    refine h.announced hm hlater ((syncs_follow _).trans (syncs_sync event _)) ?_
    rw [frames_follow]
    exact holds_sync event hfollowing hstart hroom
  · rcases Statement.composed_of_effect hf with ⟨event, hevent, -⟩ | hcomposed
    · exact absurd ⟨event, hevent⟩ hs
    · have hm := announcement?_of_effect hnext fun event hevent => hs ⟨event, hevent⟩
      exact h.silent hm hlater ((syncs_follow _).trans (syncs_of_composed hcomposed _))

/-- Any other turn. -/
theorem quiet (h : Announces start seen m.recorder) (hquiet : Quiet m.recorder r)
    (hnext : ∀ site s, m.next? = some (site, s) → s.effect? site = none) :
    Announces start (seen ++ [m]) r := by
  have hm : m.announcement? = none := by
    cases hn : m.next? with
    | none => rw [announcement?, hn]
    | some entry =>
      refine announcement?_of_effect hn fun event hevent => ?_
      have hnone := hnext _ _ hn
      rw [hevent] at hnone
      cases hnone
  refine h.silent hm (Later.of_quiet hquiet) ?_
  rw [hquiet]

end Announces
end Machine

namespace Performance
open Machine Recorder

variable {p : Performance} {maxSteps : Option Nat}

theorem announces_turns (h : p.limit maxSteps ≤ p.settings.maxPositions) {turns : List Machine}
    (hturns : Turns p.settings (p.limit maxSteps) (.start p.program p.recorder) turns
      (p.outcome maxSteps)) :
    Announces p.start.coords turns (p.outcome maxSteps).1.recorder := by
  refine recorded_induction hturns ⟨rfl, .nil, fun e he => by cases he⟩ ?_ ?_
  · intro seen m site s f hreaches hframes hnext hf hseen
    have hfollowing := following_reaches hreaches (following_start _ _ _ _)
    have hstart : Unmoved p.start.coords m.recorder :=
      kept_reaches (kept_unmoved _) hreaches (following_start _ _ _ _) fun _ => rfl
    have hlater := kept_reaches (kept_later p.recorder) hreaches (following_start _ _ _ _) (.refl _)
    have hroom : m.recorder.frames.size < m.recorder.maxPositions := by
      rw [hlater.cap]
      exact Nat.lt_of_lt_of_le hframes h
    exact hseen.effect hnext hf hfollowing hstart hroom
  · intro seen m r hnext hquiet hseen
    exact hseen.quiet hquiet hnext

/-- If the step limit of a run is within the cap, the ticks of its announcements increase, each of
them is the index of a frame without marks that holds the widget where it was, and there is one for
each announcement that the run executes, in this order. -/
theorem ticks_index_own_frames (h : p.limit maxSteps ≤ p.settings.maxPositions) :
    let t := (p.perform maxSteps).timeline
    (t.syncs.map SyncEvent.tick).Pairwise (· < ·) ∧
    (∀ e ∈ t.syncs, e.tick < t.total ∧ Holds p.start.coords t.frames e.tick) ∧
    ∃ turns, Turns p.settings (p.limit maxSteps) (.start p.program p.recorder) turns
        (p.outcome maxSteps) ∧ t.syncs = turns.filterMap announcement? := by
  intro t
  obtain ⟨turns, hturns⟩ := exists_turns p.settings (p.limit maxSteps)
    (.start p.program p.recorder)
  have hannounces := announces_turns h hturns
  have hsyncs : t.syncs = (p.outcome maxSteps).1.recorder.syncs.toList := syncs_perform p maxSteps
  rw [hsyncs]
  refine ⟨hannounces.increasing, fun e he => ?_, turns, hturns, hannounces.syncs⟩
  have hholds : Holds p.start.coords t.frames e.tick :=
    (hannounces.holds e he).retained fun _ _ => getElem?_perform
  exact ⟨hholds.lt_size, hholds⟩

def signals : Performance :=
  playing [.sync "a", .move (.along .right (.int 2)), .repeated (.int 2) [.sync "b"]]

theorem ticks_index_own_frames_signals :
    signals.limit none ≤ signals.settings.maxPositions ∧
      (signals.perform none).timeline.syncs = [⟨"a", 0⟩, ⟨"b", 3⟩, ⟨"b", 4⟩] ∧
      Holds (0, 0) (signals.perform none).timeline.frames 0 ∧
      Holds (0, 0) (signals.perform none).timeline.frames 4 := by
  have hlimit : signals.limit none ≤ signals.settings.maxPositions := by decide
  have hsyncs : (signals.perform none).timeline.syncs = [⟨"a", 0⟩, ⟨"b", 3⟩, ⟨"b", 4⟩] := by cbv
  obtain ⟨-, hholds, -⟩ := ticks_index_own_frames hlimit
  rw [hsyncs] at hholds
  exact ⟨hlimit, hsyncs, (hholds ⟨"a", 0⟩ (by decide)).2, (hholds ⟨"b", 4⟩ (by decide)).2⟩

end Performance
end Choreography
