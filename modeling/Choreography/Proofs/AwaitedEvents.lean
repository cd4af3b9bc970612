import Choreography.Proofs.Lockstep
import Choreography.Proofs.Occurrences

/-! # Awaited events

A run learns of the events that are announced elsewhere only by waiting for them. What it generates
does not depend on the ticks of any other events. -/
namespace Choreography

def Program.awaited (p : Program) : List String := p.places.flatMap (·.statement.awaited)

theorem Program.awaited_subset {p : Program} {place : Place} (h : place ∈ p.places) :
    place.statement.awaited ⊆ p.awaited :=
  fun _ hevent => List.mem_flatMap.mpr ⟨place, h, hevent⟩

namespace Recorder

def withTicks (r : Recorder) (ticks : Table Nat) : Recorder := { r with eventTicks := ticks }

def SameNews (awaited : List String) (r g : Recorder) : Prop :=
  ∃ ticks, g = r.withTicks ticks ∧
    ∀ event ∈ awaited, r.eventTicks.find? event = ticks.find? event

variable {awaited : List String} {r g : Recorder} (ticks : Table Nat)

theorem unseen_withTicks : Unseen (·.withTicks ticks) where
  push r f := by
    have hframes : (r.withTicks ticks).frames = r.frames := rfl
    have hcap : (r.withTicks ticks).maxPositions = r.maxPositions := rfl
    have hcapped : (r.withTicks ticks).capped = r.capped := rfl
    unfold push
    rw [hframes, hcap, hcapped]
    split
    · split <;> rfl
    · rfl
  added _ _ := rfl

theorem setImplicitPeriod_withTicks (r : Recorder) (length : Nat) :
    (r.withTicks ticks).setImplicitPeriod length =
      (r.setImplicitPeriod length).withTicks ticks := by
  have hperiod : (r.withTicks ticks).implicitPeriod = r.implicitPeriod := rfl
  unfold setImplicitPeriod
  rw [hperiod]
  split <;> rfl

theorem perform_withTicks (a : Act) (r : Recorder) :
    a.perform (r.withTicks ticks) = ((a.perform r).1.withTicks ticks, (a.perform r).2) := by
  cases a with
  | emit f => exact (unseen_withTicks ticks).emit r f
  | endCycle => exact congrArg (·, true) (setImplicitPeriod_withTicks ticks r r.frames.size)
  | _ => rfl

theorem follow_withTicks (r : Recorder) :
    (r.withTicks ticks).follow = r.follow.withTicks ticks := by
  have hframes : (r.withTicks ticks).frames = r.frames := rfl
  unfold follow
  rw [hframes]
  split <;> rfl

theorem markLoopStart_withTicks (passes : PassCount) (r : Recorder) :
    Machine.markLoopStart passes (r.withTicks ticks) =
      (Machine.markLoopStart passes r).withTicks ticks := by
  have hstart : (r.withTicks ticks).loopStart = r.loopStart := rfl
  unfold Machine.markLoopStart
  rw [hstart]
  split
  · rfl
  · split <;> rfl

/-- A wait is as long with either news, if they agree on its event. -/
theorem SameNews.waitLength (h : SameNews awaited r g) {event : String} (hevent : event ∈ awaited) :
    Movement.waitLength r event = Movement.waitLength g event := by
  obtain ⟨ticks, rfl, hsame⟩ := h
  funext most
  have htick : (r.withTicks ticks).tick = r.tick := rfl
  have hannounced : (r.withTicks ticks).announced = r.announced := rfl
  have hticks : (r.withTicks ticks).eventTicks = ticks := rfl
  simp only [Movement.waitLength, htick, hannounced, hticks, hsame event hevent]

theorem SameNews.map (h : SameNews awaited r g) {f : Recorder → Recorder}
    (hf : ∀ r ticks, f (r.withTicks ticks) = (f r).withTicks ticks)
    (hticks : (f r).eventTicks = r.eventTicks) : SameNews awaited (f r) (f g) := by
  obtain ⟨ticks, rfl, hsame⟩ := h
  refine ⟨ticks, hf r ticks, ?_⟩
  rw [hticks]
  exact hsame

theorem SameNews.act (a : Act) (h : SameNews awaited r g) :
    SameNews awaited (a.perform r).1 (a.perform g).1 ∧ (a.perform r).2 = (a.perform g).2 := by
  refine ⟨h.map (f := fun r => (a.perform r).1) ?_ (Later.act a r).eventTicks, ?_⟩
  · intro r ticks
    simp only [perform_withTicks]
  · obtain ⟨ticks, rfl, -⟩ := h
    rw [perform_withTicks]

/-- A statement does the same with either news, if they agree on what it waits for. -/
theorem SameNews.effect {site : Site} {s : Statement} {f : Recorder → Recorder}
    (hs : s.awaited ⊆ awaited) (hf : s.effect? site = some f) (h : SameNews awaited r g) :
    SameNews awaited (f r) (f g) := by
  rcases Statement.composed_of_effect hf with ⟨event, -, rfl⟩ | hcomposed
  · refine h.map (fun r ticks => ?_) ?_
    · exact congrArg Prod.fst ((unseen_withTicks ticks).emit (r.announce event) r.current)
    · exact (Later.act (.emit r.current) (r.announce event)).eventTicks
  · have hview : ∀ r g : Recorder, SameNews awaited r g → r.view = g.view := by
      rintro r g ⟨ticks, rfl, -⟩
      rfl
    have hboth := Scripted.couples (L := fun _ _ => False) (fun _ _ _ => id) (fun _ _ _ => id)
      hview (fun event r g hevent h => h.waitLength (hs hevent))
      (fun a r g h => .inr (SameNews.act a h)) hcomposed h
    exact (hboth.resolve_left id).1

/-- Runs that know the same about what they wait for are in lockstep to the end. -/
theorem coupling_sameNews (limit : Nat) (awaited : List String) :
    Coupling limit (fun s => s.awaited ⊆ awaited) (· = ·) (SameNews awaited) fun _ _ => False where
  left _ := ⟨fun _ _ => id, fun _ _ => id, fun _ => id, fun _ _ _ => id⟩
  right _ := ⟨fun _ _ => id, fun _ _ => id, fun _ => id, fun _ _ _ => id⟩
  env := by
    rintro r g ⟨ticks, rfl, -⟩
    rfl
  limits := by
    rintro r g ⟨ticks, rfl, -⟩
    exact .inr Iff.rfl
  starts := by
    rintro r g ⟨ticks, rfl, -⟩
    rfl
  effect hs hf h := .inr ((h.effect hs hf).map (fun r ticks => follow_withTicks ticks r)
    (Later.follow _).eventTicks)
  follow h := h.map (fun r ticks => follow_withTicks ticks r) (Later.follow _).eventTicks
  note notices h := h.map (f := (·.note notices)) (fun _ _ => rfl) rfl
  setSegment name h := h.map (f := (·.setSegment name)) (fun _ _ => rfl) rfl
  closeSpan name start start' hstart h := by
    subst hstart
    exact h.map (f := (·.closeSpan name start)) (fun _ _ => rfl) rfl
  markLoopStart passes h := h.map (fun r ticks => markLoopStart_withTicks ticks passes r)
    (Later.of_quiet (Quiet.markLoopStart passes _)).eventTicks

end Recorder

namespace Machine
open Recorder

variable {settings : EngineSettings} {limit : Nat} {awaited : List String} {m n : Machine}

theorem eq_of_stacks {s t : List Activation} (h : Stacks (· = ·) s t) : s = t := by
  induction h with
  | nil => rfl
  | cons hab _ ih =>
    obtain ⟨site, block, index, hkind⟩ := hab
    cases hkind with
    | segment name hstart => rw [hstart, ih]
    | _ => rw [ih]

theorem closeAll_sameNews (h : Alike (· = ·) (SameNews awaited) m n) :
    SameNews awaited m.closeAll n.closeAll := by
  have hclosed : ∀ (stack : List Activation) (r g : Recorder), SameNews awaited r g →
      SameNews awaited (stack.foldl (fun r a => close a r) r)
        (stack.foldl (fun r a => close a r) g) := by
    intro stack
    induction stack with
    | nil => exact fun _ _ => id
    | cons a below ih =>
      intro r g h
      have ha : a.Like (· = ·) a := by
        obtain ⟨site, block, index, _ | ⟨name, start⟩ | ⟨inner, passes⟩⟩ := a
        · exact .intro site block index .block
        · exact .intro site block index (.segment name rfl)
        · exact .intro site block index (.loop inner passes)
      exact ih _ _ (close_like (coupling_sameNews 0 awaited) ha h)
  unfold closeAll
  rw [← eq_of_stacks h.stack]
  exact hclosed m.stack _ _ h.recorder

end Machine

namespace Performance
open Machine Recorder

def withTicks (p : Performance) (ticks : Table Nat) : Performance := { p with eventTicks := ticks }

theorem start_sameNews (p : Performance) {ticks ticks' : Table Nat}
    (h : ∀ event ∈ p.program.awaited, ticks.find? event = ticks'.find? event) :
    Alike (· = ·) (SameNews p.program.awaited) (.start p.program (p.withTicks ticks).recorder)
      (.start p.program (p.withTicks ticks').recorder) :=
  ⟨⟨ticks', rfl, h⟩, .cons (.intro _ _ _ .block) .nil, rfl, rfl, rfl, rfl⟩

/-- Runs that record the same up to the news they were given generate the same. -/
theorem generated_eq_of_withTicks (p : Performance) (ticks ticks' : Table Nat) {m n : Machine}
    {last : Table Nat} (h : n.closeAll = m.closeAll.withTicks last) (why : Stop) :
    (p.withTicks ticks).generated m why = (p.withTicks ticks').generated n why := by
  unfold generated
  rw [h]
  cases why <;> rfl

/-- Performances that agree on the events that some wait of the program is for generate the same
timeline, stop for the same reason and report the same. -/
theorem perform_eq_of_awaited (p : Performance) (maxSteps : Option Nat) {ticks ticks' : Table Nat}
    (h : ∀ event ∈ p.program.awaited, ticks.find? event = ticks'.find? event) :
    (p.withTicks ticks).perform maxSteps = (p.withTicks ticks').perform maxSteps := by
  have hallowed : ∀ k, Reaches p.settings (p.limit maxSteps)
      (.start p.program (p.withTicks ticks).recorder) k →
        k.Next fun s => s.awaited ⊆ p.program.awaited := fun k hk =>
    (charted_reaches (charted_start p.program _) hk).next fun _ => Program.awaited_subset
  have hrun := run_like p.settings (coupling_sameNews (p.limit maxSteps) p.program.awaited)
    (p.start_sameNews h) (following_start _ _ _ _) (following_start _ _ _ _) hallowed
  obtain ⟨hlast, hwhy⟩ := hrun.resolve_left id
  obtain ⟨last, hsame, -⟩ := closeAll_sameNews hlast
  exact (p.generated_eq_of_withTicks ticks ticks' hsame _).trans
    (congrArg ((p.withTicks ticks').generated _) hwhy)

def listener : Performance where
  program := .ofBlock [
    .define "answer" [.waitFor "bell" (.int 4), .sync "drum"],
    .loop (.times (.int 2)) [.waitFor "cue" (.int 6), .call "answer"]]
  settings := {}
  widget := ⟨1, 1⟩
  container := ⟨9, 9⟩
  start := .plain 0 0
  eventTicks := ∅
  source := fun _ => none

/-- The listener announces the drum but does not wait for it. -/
theorem listener_ignores_drum :
    let heard := Table.ofList [("cue", 3), ("drum", 1)]
    let unheard := Table.ofList [("cue", 3), ("horn", 5)]
    (∀ event ∈ listener.program.awaited, heard.find? event = unheard.find? event) ∧
      (listener.withTicks heard).perform none = (listener.withTicks unheard).perform none := by
  intro heard unheard
  have hsame : ∀ event ∈ listener.program.awaited, heard.find? event = unheard.find? event := by
    decide
  exact ⟨hsame, perform_eq_of_awaited listener none hsame⟩

end Performance
end Choreography
