import Choreography.Proofs.Footprints
import Choreography.Proofs.Limits
import Choreography.Proofs.LoopPasses
import Choreography.Proofs.Occurrences

/-! # What a run remembers of its statements

A turn executes a statement that only concerns the recorder, or it leaves the memory of all movements
alone. What a run remembers of one statement is therefore made by the executions of this statement,
which are found among the machines that the run passes. -/
namespace Choreography

namespace Machine
open Recorder

variable {settings : EngineSettings} {limit : Nat} {m m' : Machine} {ms : List Machine}
  {site : Site} {s : Statement}

def next? (m : Machine) : Option (Site × Statement) :=
  match m.stack with
  | [] => none
  | top :: _ => top.block[top.index]?.map fun s => (top.index :: top.site, s)

/-- What holds at the start and is kept by each turn, given the machines before it, holds for all
machines before a later one. -/
theorem Path.induction {P : List Machine → Machine → Prop} (h : Path settings limit m ms m')
    (hstart : P [] m)
    (hturn : ∀ seen x x', Reaches settings limit m x → x.advance settings limit = .running x' →
      P seen x → P (seen ++ [x]) x') : P ms m' := by
  have hgeneral : ∀ {x ms m'} seen, Reaches settings limit m x → P seen x →
      Path settings limit x ms m' → P (seen ++ ms) m' := by
    intro x ms m' seen hreaches hx hpath
    induction hpath generalizing seen with
    | nil => rwa [List.append_nil]
    | @cons x next m' ms hstep _ ih =>
      rw [List.append_cons]
      exact ih _ (hreaches.tail hstep) (hturn _ _ _ hreaches hstep hx)
  exact hgeneral [] .refl hstart h

theorem Path.of_mem {x : Machine} (h : Path settings limit m ms m') (hx : x ∈ ms) :
    ∃ x', Reaches settings limit m x ∧ x.advance settings limit = .running x' := by
  induction h with
  | nil => cases hx
  | @cons y next m' ms hstep _ ih =>
    rcases List.mem_cons.mp hx with rfl | hx
    · exact ⟨next, .refl, hstep⟩
    · obtain ⟨x', hreaches, hadvance⟩ := ih hx
      exact ⟨x', .head hstep hreaches, hadvance⟩

theorem next?_eq_of_stack {top : Activation} {below : List Activation}
    (hstack : m.stack = top :: below) :
    m.next? = top.block[top.index]?.map fun s => (top.index :: top.site, s) := by
  rw [next?, hstack]

/-- The statement that is executed next does what it does, and the widget follows. -/
theorem recorder_of_next {f : Recorder → Recorder} (h : m.advance settings limit = .running m')
    (hnext : m.next? = some (site, s)) (hf : s.effect? site = some f) :
    m'.recorder = (f m.recorder).follow := by
  obtain ⟨top, below, hstack, -, -, hturn⟩ := turn_of_advance h
  rw [next?_eq_of_stack hstack, Option.map_eq_some_iff] at hnext
  obtain ⟨s', hs, heq⟩ := hnext
  cases heq
  rw [turn_of_effect hs hf] at hturn
  cases hturn
  rfl

theorem later_of_advance (h : m.advance settings limit = .running m')
    (hm : m.recorder.Following) : Later m.recorder m'.recorder := by
  have hlater := kept_advance (kept_later m.recorder) settings limit hm (Later.refl _)
  rwa [h] at hlater

/-- A turn executes a statement that only concerns the recorder, or it is quiet. -/
theorem footprint_of_advance (h : m.advance settings limit = .running m')
    (hm : m.recorder.Following) :
    (∃ site s r, m.next? = some (site, s) ∧ Footprint site m.recorder s r ∧
      m'.recorder = r.follow) ∨ Quiet m.recorder m'.recorder := by
  obtain ⟨top, below, hstack, -, -, hturn⟩ := turn_of_advance h
  rcases turn_cases settings top below hm with ⟨s, f, hs, hf, heq⟩ | hquiet
  · rw [hturn] at heq
    cases heq
    refine .inl ⟨_, s, _, ?_, Footprint.of_effect hf m.recorder, rfl⟩
    rw [next?_eq_of_stack hstack, hs, Option.map_some]
  · rw [hturn] at hquiet
    exact .inr hquiet

/-- What a recorder shows that neither the place of the widget nor a quiet change concerns stays the
same in a turn, unless the next statement changes it. -/
theorem kept_by_advance {α : Type} {g : Recorder → α}
    (hfollow : ∀ r env, g { r with env := env } = g r)
    (hquiet : ∀ r r', Quiet r r' → g r' = g r)
    (hother : ∀ site s r, m.next? = some (site, s) → Footprint site m.recorder s r →
      g r = g m.recorder)
    (h : m.advance settings limit = .running m') (hm : m.recorder.Following) :
    g m'.recorder = g m.recorder := by
  rcases footprint_of_advance h hm with ⟨site, s, r, hnext, hfootprint, hm'⟩ | hq
  · rw [hm', follow_same, hfollow]
    exact hother site s r hnext hfootprint
  · exact hquiet _ _ hq

theorem smoothing_advance (h : m.advance settings limit = .running m')
    (hm : m.recorder.Following) : m'.recorder.smoothing = m.recorder.smoothing :=
  kept_by_advance (fun _ _ => rfl) (fun _ _ hq => by rw [hq])
    (fun _ _ _ _ hfootprint => hfootprint.smoothing) h hm

theorem find?_clips_advance (h : m.advance settings limit = .running m')
    (hm : m.recorder.Following) (hs : ∀ motion, m.next? ≠ some (site, .scrollClip motion)) :
    Assoc.find? site m'.recorder.clips = Assoc.find? site m.recorder.clips := by
  refine kept_by_advance (g := fun r => Assoc.find? site r.clips) (fun _ _ => rfl)
    (fun _ _ hq => by rw [hq]) (fun inner s r hnext hfootprint => ?_) h hm
  refine hfootprint.find?_clips ?_
  rintro motion rfl rfl
  exact hs motion hnext

theorem slide_advance (h : m.advance settings limit = .running m') (hm : m.recorder.Following)
    (hs : ∀ site motion, m.next? ≠ some (site, .slide motion)) :
    m'.recorder.slide = m.recorder.slide := by
  refine kept_by_advance (fun _ _ => rfl) (fun _ _ hq => by rw [hq])
    (fun inner s r hnext hfootprint => ?_) h hm
  refine hfootprint.slide_eq ?_
  rintro motion rfl
  exact hs inner motion hnext

theorem mem_finishedScrolls_advance (h : m.advance settings limit = .running m')
    (hm : m.recorder.Following) (hs : ∀ motion, m.next? ≠ some (site, .scrollLoop motion)) :
    site ∈ m'.recorder.finishedScrolls ↔ site ∈ m.recorder.finishedScrolls := by
  refine iff_of_eq (kept_by_advance (g := fun r => site ∈ r.finishedScrolls) (fun _ _ => rfl)
    (fun _ _ hq => by rw [hq]) (fun inner s r hnext hfootprint => ?_) h hm)
  refine propext (hfootprint.mem_finishedScrolls ?_)
  rintro motion rfl rfl
  exact hs motion hnext

/-- What holds at the start and is kept by each turn, given the machines that took the turns before
it, holds at the end of a run. -/
theorem Turns.induction {P : List Machine → Recorder → Prop} {turns : List Machine}
    {final : Machine × Stop} (h : Turns settings limit m turns final) (hstart : P [] m.recorder)
    (hturn : ∀ seen x top below, Reaches settings limit m x → x.stack = top :: below →
      x.recorder.frames.size < limit → P seen x.recorder →
      P (seen ++ [x]) (x.turn settings top below).recorder) : P turns final.1.recorder := by
  have hgeneral : ∀ {x turns final} seen, Reaches settings limit m x → P seen x.recorder →
      Turns settings limit x turns final → P (seen ++ turns) final.1.recorder := by
    intro x turns final seen hreaches hx hturns
    induction hturns generalizing seen with
    | before => rwa [List.append_nil]
    | @amid x _ top below _ hstack hadvance hstop =>
      have hlast := hturn seen x top below hreaches hstack (room_of_turn hstack hadvance).2 hx
      rwa [← hadvance, hstop] at hlast
    | @onward x next turns final hadvance _ ih =>
      obtain ⟨top, below, hstack, -, hframes, heq⟩ := turn_of_advance hadvance
      have hnext := hturn seen x top below hreaches hstack hframes hx
      rw [heq] at hnext
      rw [List.append_cons]
      exact ih _ (hreaches.tail hadvance) hnext
  exact hgeneral [] .refl hstart h

theorem Turns.run_eq {turns : List Machine} {final : Machine × Stop}
    (h : Turns settings limit m turns final) : m.run settings limit = final := by
  induction h with
  | before h => exact run_of_stopped h
  | amid _ _ h => exact run_of_stopped h
  | onward h _ ih => exact (run_of_running h).trans ih

/-- A path to where a run stops before its next turn is the whole run. -/
theorem Path.turns {why : Stop} (h : Path settings limit m ms m')
    (hstop : m'.advance settings limit = .stopped m' why) : Turns settings limit m ms (m', why) := by
  induction h with
  | nil => exact .before hstop
  | cons hstep _ ih => exact .onward hstep (ih hstop)

/-- A turn lets the widget follow a statement that only concerns the recorder, or there is no such
statement and the turn is quiet. -/
theorem recorder_turn (settings : EngineSettings) {top : Activation} {below : List Activation}
    (hstack : m.stack = top :: below) (hm : m.recorder.Following) :
    (∃ site s f, m.next? = some (site, s) ∧ s.effect? site = some f ∧
      (m.turn settings top below).recorder = (f m.recorder).follow) ∨
    ((∀ site s, m.next? = some (site, s) → s.effect? site = none) ∧
      Quiet m.recorder (m.turn settings top below).recorder) := by
  rw [next?_eq_of_stack hstack]
  cases hs : top.block[top.index]? with
  | none =>
    right
    exact ⟨fun _ _ hnext => (by cases hnext), quiet_turn (fun s h => by rw [hs] at h; cases h) hm⟩
  | some s =>
    cases hf : s.effect? (top.index :: top.site) with
    | some f =>
      left
      refine ⟨_, s, f, rfl, hf, ?_⟩
      rw [turn_of_effect hs hf]
      rfl
    | none =>
      right
      constructor
      · intro site s' hnext
        cases hnext
        exact hf
      · apply quiet_turn _ hm
        intro s' hs'
        rw [hs] at hs'
        cases hs'
        exact hf

end Machine

namespace Performance
open Machine Recorder

variable {p : Performance} {maxSteps : Option Nat} {m m' : Machine} {site : Site}
  {s s' : Statement}

/-- What holds at the start of a run, is kept by the statements that only concern the recorder, given
the machines that took the turns before them, and by quiet turns, holds at the end. -/
theorem recorded_induction {P : List Machine → Recorder → Prop} {turns : List Machine}
    (h : Turns p.settings (p.limit maxSteps) (.start p.program p.recorder) turns
      (p.outcome maxSteps))
    (hstart : P [] p.recorder)
    (heffect : ∀ seen x site s f,
      Reaches p.settings (p.limit maxSteps) (.start p.program p.recorder) x →
      x.recorder.frames.size < p.limit maxSteps → x.next? = some (site, s) →
      s.effect? site = some f → P seen x.recorder → P (seen ++ [x]) (f x.recorder).follow)
    (hquiet : ∀ seen x r, (∀ site s, x.next? = some (site, s) → s.effect? site = none) →
      Quiet x.recorder r → P seen x.recorder → P (seen ++ [x]) r) :
    P turns (p.outcome maxSteps).1.recorder := by
  refine h.induction hstart fun seen x top below hreaches hstack hframes hx => ?_
  have hfollowing := following_reaches hreaches (following_start _ _ _ _)
  rcases recorder_turn p.settings hstack hfollowing with
    ⟨site, s, f, hnext, hf, heq⟩ | ⟨hnext, hsame⟩
  · rw [heq]
    exact heffect seen x site s f hreaches hframes hnext hf hx
  · exact hquiet seen x _ hnext hsame hx

theorem smoothing_reaches
    (h : Reaches p.settings (p.limit maxSteps) (.start p.program p.recorder) m) :
    m.recorder.smoothing = p.settings.smoothing := by
  induction h with
  | refl => rfl
  | tail hreaches hstep ih =>
    have hfollowing := following_reaches hreaches (following_start _ _ _ _)
    exact (smoothing_advance hstep hfollowing).trans ih

theorem executing_of_next
    (hreaches : Reaches p.settings (p.limit maxSteps) (.start p.program p.recorder) m)
    (h : m.advance p.settings (p.limit maxSteps) = .running m') (hnext : m.next? = some (site, s)) :
    p.Executing maxSteps m s ∧ m.nextSite? = some site := by
  obtain ⟨top, below, hstack, hsteps, hframes, -⟩ := turn_of_advance h
  rw [next?_eq_of_stack hstack, Option.map_eq_some_iff] at hnext
  obtain ⟨s', hs, heq⟩ := hnext
  cases heq
  refine ⟨⟨hreaches, top, below, hstack, hs, hsteps, hframes⟩, ?_⟩
  rw [nextSite?, hstack]
  rfl

/-- At one site a run executes one statement. -/
theorem eq_of_next {x x' y y' : Machine}
    (hx : Reaches p.settings (p.limit maxSteps) (.start p.program p.recorder) x)
    (hy : Reaches p.settings (p.limit maxSteps) (.start p.program p.recorder) y)
    (hadvance : x.advance p.settings (p.limit maxSteps) = .running x')
    (hadvance' : y.advance p.settings (p.limit maxSteps) = .running y')
    (hnext : x.next? = some (site, s)) (hnext' : y.next? = some (site, s')) : s = s' := by
  obtain ⟨hs, hsite⟩ := executing_of_next hx hadvance hnext
  obtain ⟨hs', hsite'⟩ := executing_of_next hy hadvance' hnext'
  obtain ⟨depth, place, hplace, hmem, -⟩ := hs.place
  rw [hsite] at hplace
  cases hplace
  exact (hs'.eq_place hmem hsite').1

theorem advance_after {k : Nat} (h : (p.stretch k 1).length = 1) :
    (p.after k).advance p.settings (p.limit none) = .running (p.after (k + 1)) := by
  have hpath := p.path_stretch k 1
  obtain ⟨x, hx⟩ := List.length_eq_one_iff.mp h
  rw [hx] at hpath
  cases hpath with
  | cons hadvance hrest =>
    cases hrest
    exact hadvance

end Performance
end Choreography
