import Choreography.Proofs.Segments

/-! # Limits of a run

A run takes its turns one after the other until it stops, either before a turn, where the program is
over or a limit is met, or in the midst of one. What it may execute, record and keep open is bounded
by its settings, and the timeline that comes of it always has a frame to play. Only the room for the
places that a run may remember is not bounded: it is made before the run, which does not begin
without it. -/
namespace Choreography
namespace Recorder

variable {r : Recorder}

def WithinCap (r : Recorder) : Prop := r.frames.size ≤ r.maxPositions

theorem WithinCap.emit (h : r.WithinCap) (f : Frame) : (r.emit f).1.WithinCap := by
  have hlength := congrArg List.length (r.toList_emit f)
  rw [List.length_append, List.length_take, Array.length_toList, Array.length_toList] at hlength
  unfold WithinCap at h ⊢
  rw [(Adds.emit r f).same, hlength]
  simp only
  omega

theorem WithinCap.of_same {r' : Recorder} (h : r.WithinCap)
    (hsize : r'.frames.size = r.frames.size) (hcap : r'.maxPositions = r.maxPositions) :
    r'.WithinCap := by
  unfold WithinCap
  rw [hsize, hcap]
  exact h

/-- Some frames have been kept, and there was room for them. -/
structure Grows (r r' : Recorder) : Prop where
  cap : r'.maxPositions = r.maxPositions
  size : r.frames.size < r'.frames.size
  within : r.WithinCap → r'.WithinCap

theorem Grows.of_emit {r' : Recorder} {f : Frame} (h : r.emit f = (r', true)) : Grows r r' := by
  have hadds := Adds.emit r f
  have hwithin := fun hr : r.WithinCap => hr.emit f
  rw [h] at hadds hwithin
  refine ⟨(Later.of_adds hadds).cap, ?_, hwithin⟩
  rw [eq_of_emit h, Array.size_push, Smoothing.foldl_push_eq_append, Array.size_append]
  omega

theorem Grows.of_emitHeld {r' : Recorder} {f : Frame} {n : Nat} (hn : 0 < n)
    (h : r.emitHeld f n = (r', true)) : Grows r r' := by
  induction n generalizing r with
  | zero => cases hn
  | succ n ih =>
    rw [emitHeld] at h
    cases hfirst : r.emit f with
    | mk r₁ kept =>
      rw [hfirst] at h
      cases kept with
      | false => cases h
      | true =>
        have hgrows := Grows.of_emit hfirst
        cases n with
        | zero =>
          cases h
          exact hgrows
        | succ n =>
          have hrest := ih (Nat.succ_pos n) h
          exact ⟨hrest.cap.trans hgrows.cap, Nat.lt_trans hgrows.size hrest.size,
            fun hr => hrest.within (hgrows.within hr)⟩

end Recorder

namespace Movement
open Recorder

variable {p : Pace} {r : Recorder}

/-- What holds the widget at an offset before the distance adds a frame or drops one, so that no more
steps are taken than there is room for frames. -/
theorem goOn_of_room {hold : Int → Recorder → Recorder × Bool}
    (hhold : ∀ o r r', o < p.distance → hold o r = (r', true) → Grows r r') (hr : r.WithinCap)
    {n : Nat} (hn : r.maxPositions < r.frames.size + n) (moved : Int) (k : Nat) :
    goOn p hold r moved (n + k) = goOn p hold r moved n := by
  induction n generalizing r moved with
  | zero => exact absurd hr (Nat.not_le.mpr hn)
  | succ n ih =>
    rw [Nat.succ_add, goOn, goOn]
    split
    · cases hnext : hold (p.next moved) r with
      | mk r' kept =>
        cases kept with
        | false => rfl
        | true =>
          rcases Int.lt_or_le (p.next moved) p.distance with hlt | hreached
          · have hgrows := hhold _ _ _ hlt hnext
            have hcap := hgrows.cap
            have hsize := hgrows.size
            exact ih (hgrows.within hr) (by omega) _
          · simp only [goOn_of_le hreached]
    · rfl

/-- More steps than there can be frames lead a walk no further. -/
theorem walk_eq_goOn (hinterval : 0 < p.interval) (hr : r.WithinCap)
    (hcap : r.maxPositions < 2 ^ 64) (origin : Frame) (moved : Int) (k : Nat) :
    walk r origin p moved =
      goOn p (fun o r => r.emitHeld (along origin p.direction o) p.interval) r moved
        (stepBound + k) := by
  refine (goOn_of_room (fun o r r' _ h => Grows.of_emitHeld hinterval h) hr ?_ moved k).symm
  exact Nat.lt_add_left _ hcap

/-- Nor do they lead the way back of a bounce. -/
theorem comeBack_eq_goOn (hinterval : 0 < p.interval) (hr : r.WithinCap)
    (hcap : r.maxPositions < 2 ^ 64) (origin boundary : Frame) (k : Nat) :
    comeBack origin boundary p r =
      (goOn p (fun o r => if o = p.distance then (arrive origin p r, true)
        else r.emitHeld (along boundary p.direction.opposite o) p.interval) r 0
          (stepBound + k)).1 := by
  refine congrArg Prod.fst (goOn_of_room (fun o r r' ho h => ?_) hr ?_ 0 k).symm
  · rw [if_neg (Int.ne_of_lt ho)] at h
    exact Grows.of_emitHeld hinterval h
  · exact Nat.lt_add_left _ hcap

end Movement

namespace Machine
open Recorder

variable {settings : EngineSettings} {limit : Nat} {m m' : Machine} {site : Site} {s : Statement}
  {top : Activation} {below : List Activation}

/-- The machines that take the turns of a run, and its end: a run stops before a turn or in the midst
of one. -/
inductive Turns (settings : EngineSettings) (limit : Nat) :
    Machine → List Machine → Machine × Stop → Prop
  | before {m : Machine} {why : Stop} (h : m.advance settings limit = .stopped m why) :
      Turns settings limit m [] (m, why)
  | amid {m m' : Machine} {top : Activation} {below : List Activation} {why : Stop}
      (hstack : m.stack = top :: below)
      (hturn : m.advance settings limit = m.turn settings top below)
      (h : m.advance settings limit = .stopped m' why) : Turns settings limit m [m] (m', why)
  | onward {m next : Machine} {ms : List Machine} {final : Machine × Stop}
      (h : m.advance settings limit = .running next) (rest : Turns settings limit next ms final) :
      Turns settings limit m (m :: ms) final

/-- A turn is taken only if no limit is met; what stops a run amid a turn is something else. -/
theorem room_of_turn (hstack : m.stack = top :: below)
    (h : m.advance settings limit = m.turn settings top below) :
    m.steps < limit ∧ m.recorder.frames.size < limit := by
  have hwhy : ∀ {n : Machine} {why : Stop}, m.turn settings top below = .stopped n why →
      why = .tooDeep ∨ why = .stabilized := by
    intro n why hturn
    cases hs : top.block[top.index]? with
    | none =>
      simp only [turn, hs] at hturn
      exact .inr (why_of_finishBlock hturn)
    | some s =>
      simp only [turn, hs] at hturn
      split at hturn
      · cases hturn
      · rename_i hstopped
        cases hturn
        exact .inl (why_of_dispatch hstopped)
  by_cases hsteps : limit ≤ m.steps
  · simp only [advance, hstack, hsteps, if_true] at h
    rcases hwhy h.symm with hnot | hnot <;> cases hnot
  · by_cases hframes : limit ≤ m.recorder.frames.size
    · simp only [advance, hstack, hsteps, hframes, if_true, if_false] at h
      rcases hwhy h.symm with hnot | hnot <;> cases hnot
    · omega

/-- A run stops before a turn, or a turn stops it. -/
theorem turns_of_stopped {why : Stop} (h : m.advance settings limit = .stopped m' why) :
    ∃ turns, Turns settings limit m turns (m', why) := by
  rcases advance_cases settings limit m with ⟨why', hstop⟩ | ⟨top, below, hstack, hsteps, hframes⟩
  · have hsame := hstop.symm.trans h
    cases hsame
    exact ⟨[], .before h⟩
  · have hturn : m.advance settings limit = m.turn settings top below :=
      advance_eq_turn hstack hsteps hframes
    exact ⟨[m], .amid hstack hturn h⟩

/-- Every run halts. -/
theorem exists_turns (settings : EngineSettings) (limit : Nat) (m : Machine) :
    ∃ turns, Turns settings limit m turns (m.run settings limit) := by
  induction m using run.induct settings limit with
  | case1 m m' why h =>
    rw [run_of_stopped h]
    exact turns_of_stopped h
  | case2 m next h ih =>
    rw [run_of_running h]
    obtain ⟨turns, hturns⟩ := ih
    exact ⟨m :: turns, .onward h hturns⟩

theorem reaches_of_mem_turns {turns : List Machine} {final : Machine × Stop}
    (h : Turns settings limit m turns final) {k : Machine} (hk : k ∈ turns) :
    Reaches settings limit m k := by
  induction h with
  | before => cases hk
  | amid =>
    cases List.mem_singleton.mp hk
    exact .refl
  | onward hadvance _ ih =>
    rcases List.mem_cons.mp hk with rfl | hk
    · exact .refl
    · exact .head hadvance (ih hk)

end Machine

namespace Performance
open Machine Recorder

variable {p : Performance} {maxSteps : Option Nat}

end Performance
end Choreography
