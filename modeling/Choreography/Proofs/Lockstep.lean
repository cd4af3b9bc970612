import Choreography.Proofs.Turns
import Mathlib.Data.List.Forall2

/-! # Machines in lockstep

Two machines that execute the same program and agree on everything but what they record take the
same turns, as long as their recorders stay related and are not lost. -/
namespace Choreography

inductive ActivationKind.Like (Starts : Nat → Nat → Prop) : ActivationKind → ActivationKind → Prop
  | block : Like Starts .block .block
  | segment (name : String) {start start' : Nat} (h : Starts start start') :
      Like Starts (.segment name start) (.segment name start')
  | loop (site : Site) (passes : PassCount) : Like Starts (.loop site passes) (.loop site passes)

inductive Activation.Like (Starts : Nat → Nat → Prop) : Activation → Activation → Prop
  | intro (site : Site) (block : Block) (index : Nat) {kind kind' : ActivationKind}
      (h : kind.Like Starts kind') :
      Like Starts ⟨site, block, index, kind⟩ ⟨site, block, index, kind'⟩

abbrev Stacks (Starts : Nat → Nat → Prop) : List Activation → List Activation → Prop :=
  List.Forall₂ (Activation.Like Starts)

/-- What keeps machines in lockstep that execute some statements only: related recorders look the
same to conditions and segments start at related frames of them, and whatever a turn does to both
leaves them related or lost. What is lost stays so, whatever either of the two recorders does
alone. -/
structure Coupling (limit : Nat) (Allowed : Statement → Prop) (Starts : Nat → Nat → Prop)
    (R Lost : Recorder → Recorder → Prop) : Prop where
  left : ∀ g, Recorder.Kept (Lost · g)
  right : ∀ r, Recorder.Kept (Lost r ·)
  env : ∀ {r g : Recorder}, R r g → r.env = g.env
  limits : ∀ {r g : Recorder}, R r g → Lost r g ∨ (limit ≤ r.frames.size ↔ limit ≤ g.frames.size)
  starts : ∀ {r g : Recorder}, R r g → Starts r.frames.size g.frames.size
  effect : ∀ {r g : Recorder} {site : Site} {s : Statement} {f : Recorder → Recorder}, Allowed s →
    s.effect? site = some f → R r g → Lost (f r).follow (f g).follow ∨ R (f r).follow (f g).follow
  follow : ∀ {r g : Recorder}, R r g → R r.follow g.follow
  note : ∀ {r g : Recorder} (notices : List Notice), R r g → R (r.note notices) (g.note notices)
  setSegment : ∀ {r g : Recorder} (name : Option String), R r g →
    R (r.setSegment name) (g.setSegment name)
  closeSpan : ∀ {r g : Recorder} (name : String) {start start' : Nat}, Starts start start' →
    R r g → R (r.closeSpan name start) (g.closeSpan name start')
  markLoopStart : ∀ {r g : Recorder} (passes : PassCount), R r g →
    R (Machine.markLoopStart passes r) (Machine.markLoopStart passes g)

theorem Activation.Like.fields {Starts : Nat → Nat → Prop} {a b : Activation}
    (h : a.Like Starts b) :
    a.site = b.site ∧ a.block = b.block ∧ a.index = b.index := by
  obtain ⟨site, block, index, hkind⟩ := h
  exact ⟨rfl, rfl, rfl⟩

namespace Machine
open Recorder

structure Alike (Starts : Nat → Nat → Prop) (R : Recorder → Recorder → Prop) (m n : Machine) :
    Prop where
  recorder : R m.recorder n.recorder
  stack : Stacks Starts m.stack n.stack
  sequences : m.sequences = n.sequences
  counters : m.counters = n.counters
  recent : m.recent = n.recent
  steps : m.steps = n.steps

inductive Outcome.Like (Starts : Nat → Nat → Prop) (R : Recorder → Recorder → Prop) :
    Outcome → Outcome → Prop
  | running {m n : Machine} (h : Alike Starts R m n) : Like Starts R (.running m) (.running n)
  | stopped {m n : Machine} (h : Alike Starts R m n) (why : Stop) :
      Like Starts R (.stopped m why) (.stopped n why)

variable {settings : EngineSettings} {limit : Nat} {Allowed : Statement → Prop}
  {Starts : Nat → Nat → Prop} {R Lost : Recorder → Recorder → Prop} {m n : Machine}

theorem isLoop_like {a b : Activation} (h : a.Like Starts b) : a.isLoop = b.isLoop := by
  obtain ⟨site, block, index, hkind⟩ := h
  cases hkind <;> rfl

theorem any_isLoop_like {s t : List Activation} (h : Stacks Starts s t) :
    s.any Activation.isLoop = t.any Activation.isLoop := by
  induction h with
  | nil => rfl
  | cons hab _ ih => rw [List.any_cons, List.any_cons, isLoop_like hab, ih]

theorem activeSegment_like {s t : List Activation} (h : Stacks Starts s t) :
    activeSegment s = activeSegment t := by
  induction h with
  | nil => rfl
  | cons hab _ ih =>
    obtain ⟨site, block, index, hkind⟩ := hab
    cases hkind with
    | block => exact ih
    | segment => rfl
    | loop => exact ih

theorem close_like (hc : Coupling limit Allowed Starts R Lost) {a b : Activation}
    (hab : a.Like Starts b) {r g : Recorder} (h : R r g) : R (close a r) (close b g) := by
  obtain ⟨site, block, index, hkind⟩ := hab
  cases hkind with
  | block => exact h
  | segment name hstarts => exact hc.closeSpan name hstarts h
  | loop => exact h

theorem unwindTo_like (hc : Coupling limit Allowed Starts R Lost)
    {resume : Activation → List Activation → List Activation}
    (hresume : ∀ {a b : Activation} {s t : List Activation}, a.Like Starts b → Stacks Starts s t →
      Stacks Starts (resume a s) (resume b t))
    {s t : List Activation} (hst : Stacks Starts s t) {r g : Recorder} (h : R r g) :
    Stacks Starts (unwindTo resume s r).1 (unwindTo resume t g).1 ∧
      R (unwindTo resume s r).2 (unwindTo resume t g).2 := by
  induction hst generalizing r g with
  | nil => exact ⟨.nil, h⟩
  | cons hab hrest ih =>
    simp only [unwindTo, isLoop_like hab]
    split
    · exact ⟨hresume hab hrest, h⟩
    · exact ih (close_like hc hab h)

theorem Alike.mapRecorder (h : Alike Starts R m n) {f f' : Recorder → Recorder}
    (hf : R (f m.recorder) (f' n.recorder)) : Alike Starts R (m.mapRecorder f) (n.mapRecorder f') :=
  ⟨hf, h.stack, h.sequences, h.counters, h.recent, h.steps⟩

theorem enter_like (settings : EngineSettings) (h : Alike Starts R m n) {a b : Activation}
    (hab : a.Like Starts b) :
    Outcome.Like Starts R (m.enter settings a) (n.enter settings b) := by
  have hlength : m.stack.length = n.stack.length := h.stack.length_eq
  unfold enter
  rw [hlength]
  split
  · exact .stopped h _
  · exact .running ⟨h.recorder, .cons hab h.stack, h.sequences, h.counters, h.recent, h.steps⟩

theorem unwind_like (hc : Coupling limit Allowed Starts R Lost) (h : Alike Starts R m n)
    {resume : Activation → List Activation → List Activation}
    (hresume : ∀ {a b : Activation} {s t : List Activation}, a.Like Starts b → Stacks Starts s t →
      Stacks Starts (resume a s) (resume b t)) :
    Alike Starts R (m.unwind resume) (n.unwind resume) := by
  obtain ⟨hstacks, hrecorders⟩ := unwindTo_like hc hresume h.stack h.recorder
  refine ⟨?_, hstacks, h.sequences, h.counters, h.recent, h.steps⟩
  change R ((unwindTo resume m.stack m.recorder).2.setSegment _)
    ((unwindTo resume n.stack n.recorder).2.setSegment _)
  rw [activeSegment_like hstacks]
  exact hc.setSegment _ hrecorders

theorem withStack_like (hc : Coupling limit Allowed Starts R Lost) (h : Alike Starts R m n)
    {s t : List Activation} (hst : Stacks Starts s t) :
    Alike Starts R (m.withStack s) (n.withStack t) := by
  refine ⟨?_, hst, h.sequences, h.counters, h.recent, h.steps⟩
  change R (m.recorder.setSegment _) (n.recorder.setSegment _)
  rw [activeSegment_like hst]
  exact hc.setSegment _ h.recorder

theorem enterLoop_like (hc : Coupling limit Allowed Starts R Lost) (h : Alike Starts R m n)
    (site : Site) (body : Block) (total : Option Int) :
    Outcome.Like Starts R (m.enterLoop settings site body total)
      (n.enterLoop settings site body total) := by
  have hreset : Alike Starts R { m with counters := Assoc.assign site 0 m.counters }
      { n with counters := Assoc.assign site 0 n.counters } := by
    refine ⟨h.recorder, h.stack, h.sequences, ?_, h.recent, h.steps⟩
    simp only [h.counters]
  exact enter_like settings (hreset.mapRecorder (hc.markLoopStart _ h.recorder))
    (.intro _ _ _ (.loop _ _))

theorem segment_like (hc : Coupling limit Allowed Starts R Lost) (h : Alike Starts R m n)
    (site : Site) (name : String) (body : Block) :
    Outcome.Like Starts R (m.dispatch settings site (.segment name body))
      (n.dispatch settings site (.segment name body)) := by
  have hentered := enter_like settings h
    (.intro site body 0 (.segment name (hc.starts h.recorder)))
  simp only [dispatch]
  generalize m.enter settings _ = first at hentered ⊢
  generalize n.enter settings _ = second at hentered ⊢
  cases hentered with
  | running hentered => exact .running (withStack_like hc hentered hentered.stack)
  | stopped hentered why => exact .stopped hentered why

/-- Statements that are not movements keep machines alike. -/
theorem dispatch_like (settings : EngineSettings) (hc : Coupling limit Allowed Starts R Lost)
    (h : Alike Starts R m n) {site : Site} {s : Statement} (hs : s.effect? site = none) :
    Outcome.Like Starts R (m.dispatch settings site s) (n.dispatch settings site s) := by
  have henv : m.recorder.env = n.recorder.env := hc.env h.recorder
  have hnote : ∀ notices : List Notice,
      Alike Starts R (m.mapRecorder (·.note notices)) (n.mapRecorder (·.note notices)) :=
    fun notices => h.mapRecorder (hc.note notices h.recorder)
  have hfaults : ∀ faults : Env → List Notice,
      Alike Starts R (m.mapRecorder fun r => r.note (faults r.env))
        (n.mapRecorder fun r => r.note (faults r.env)) := by
    intro faults
    refine h.mapRecorder ?_
    rw [henv]
    exact hc.note _ h.recorder
  cases s with
  | loop count body =>
    simp only [dispatch, henv]
    split
    · exact .running (hfaults fun env => passFaults env count)
    · exact enterLoop_like hc (hfaults fun env => passFaults env count) _ _ _
  | conditional branches otherwise =>
    simp only [dispatch, henv]
    split
    · exact .running (hfaults fun env => branchFaults env branches)
    · exact enter_like settings (hfaults fun env => branchFaults env branches) (.intro _ _ _ .block)
  | breakLoop =>
    simp only [dispatch, any_isLoop_like h.stack]
    split
    · exact .running (unwind_like hc h fun _ hst => hst)
    · exact .running (hnote _)
  | continueLoop =>
    simp only [dispatch, any_isLoop_like h.stack]
    split
    · refine .running (unwind_like hc h fun hab hst => ?_)
      obtain ⟨site, block, index, hkind⟩ := hab
      exact .cons (.intro site block _ hkind) hst
    · exact .running (hnote _)
  | define name body =>
    refine .running ⟨h.recorder, h.stack, ?_, h.counters, h.recent, h.steps⟩
    rw [h.sequences]
  | call name =>
    simp only [dispatch, h.sequences]
    split
    · exact enter_like settings h (.intro _ _ _ .block)
    · exact .running (hnote _)
  | segment name body => exact segment_like hc h site name body
  | _ => cases hs

theorem nextPass_like (h : Alike Starts R m n) {a b : Activation} (hab : a.Like Starts b)
    {s t : List Activation} (hst : Stacks Starts s t) (again : Bool) :
    Alike Starts R (m.nextPass a s again) (n.nextPass b t again) := by
  obtain ⟨site, block, index, hkind⟩ := hab
  cases again with
  | true =>
    exact ⟨h.recorder, .cons (.intro site block 0 hkind) hst, h.sequences, h.counters, h.recent,
      h.steps⟩
  | false => exact ⟨h.recorder, hst, h.sequences, h.counters, h.recent, h.steps⟩

theorem countPass_like (settings : EngineSettings) (hc : Coupling limit Allowed Starts R Lost)
    (h : Alike Starts R m n) :
    Alike Starts R (m.countPass settings).1 (n.countPass settings).1 ∧
      (m.countPass settings).2 = (n.countPass settings).2 := by
  have hplace : m.recorder.current = n.recorder.current := by
    unfold Recorder.current
    rw [hc.env h.recorder]
  simp only [countPass, h.recent, hplace, h.steps]
  split
  · exact ⟨⟨h.recorder, h.stack, h.sequences, h.counters, rfl, rfl⟩, rfl⟩
  · exact ⟨⟨h.recorder, h.stack, h.sequences, h.counters, rfl, rfl⟩, rfl⟩

theorem finishPass_like (hc : Coupling limit Allowed Starts R Lost) (h : Alike Starts R m n)
    {a b : Activation} (hab : a.Like Starts b) {s t : List Activation} (hst : Stacks Starts s t)
    (site : Site) (passes : PassCount) :
    Outcome.Like Starts R (m.finishPass settings a s site passes)
      (n.finishPass settings b t site passes) := by
  have hcount : m.counter site = n.counter site := by
    unfold counter
    rw [h.counters]
  have hcounted : Alike Starts R
      { m with counters := Assoc.assign site (m.counter site + 1) m.counters }
      { n with counters := Assoc.assign site (n.counter site + 1) n.counters } := by
    refine ⟨h.recorder, h.stack, h.sequences, ?_, h.recent, h.steps⟩
    simp only [hcount, h.counters]
  cases passes with
  | short total =>
    simp only [finishPass, hcount]
    rw [hcount] at hcounted
    exact .running (nextPass_like hcounted hab hst _)
  | long total =>
    obtain ⟨hpassed, hsettled⟩ := countPass_like settings hc hcounted
    simp only [finishPass, hsettled]
    split
    · exact .stopped hpassed _
    · rw [hcount] at hpassed ⊢
      exact .running (nextPass_like hpassed hab hst _)

theorem finishBlock_like (hc : Coupling limit Allowed Starts R Lost) (h : Alike Starts R m n)
    {a b : Activation} (hab : a.Like Starts b) {s t : List Activation} (hst : Stacks Starts s t) :
    Outcome.Like Starts R (m.finishBlock settings a s) (n.finishBlock settings b t) := by
  have hleft : Alike Starts R ((m.mapRecorder (close a)).withStack s)
      ((n.mapRecorder (close b)).withStack t) :=
    withStack_like hc (h.mapRecorder (close_like hc hab h.recorder)) hst
  obtain ⟨site, block, index, hkind⟩ := id hab
  cases hkind with
  | block => exact .running hleft
  | segment => exact .running hleft
  | loop site passes => exact finishPass_like hc h hab hst site passes

theorem fetch_like (h : Alike Starts R m n) {a b : Activation} (hab : a.Like Starts b)
    {s t : List Activation} (hst : Stacks Starts s t) :
    Alike Starts R (m.fetch a s) (n.fetch b t) := by
  obtain ⟨site, block, index, hkind⟩ := hab
  refine ⟨h.recorder, .cons (.intro site block _ hkind) hst, h.sequences, h.counters, h.recent, ?_⟩
  simp only [fetch, h.steps]

/-- A turn of both machines keeps them alike. -/
theorem turn_like (settings : EngineSettings) (hc : Coupling limit Allowed Starts R Lost)
    (h : Alike Starts R m n) {a b : Activation} (hab : a.Like Starts b) {s t : List Activation}
    (hst : Stacks Starts s t)
    (hallowed : ∀ statement, a.block[a.index]? = some statement → Allowed statement) :
    Lost (m.turn settings a s).recorder (n.turn settings b t).recorder ∨
      Outcome.Like Starts R (m.turn settings a s) (n.turn settings b t) := by
  have hfetch := fetch_like h hab hst
  obtain ⟨hsite, hblock, hindex⟩ := hab.fields
  cases hs : a.block[a.index]? with
  | none =>
    have ht : b.block[b.index]? = none := by rw [← hblock, ← hindex, hs]
    simp only [turn, hs, ht]
    exact .inr (finishBlock_like hc h hab hst)
  | some statement =>
    have ht : b.block[b.index]? = some statement := by rw [← hblock, ← hindex, hs]
    cases hf : statement.effect? (a.index :: a.site) with
    | some f =>
      have hf' : statement.effect? (b.index :: b.site) = some f := by rw [← hindex, ← hsite, hf]
      rw [turn_of_effect hs hf, turn_of_effect ht hf']
      rcases hc.effect (hallowed statement hs) hf h.recorder with hl | hR
      · exact .inl hl
      · exact .inr (.running (hfetch.mapRecorder hR))
    | none =>
      have hd := dispatch_like settings hc hfetch hf
      rw [turn_of_statement hs, turn_of_statement ht, ← hindex, ← hsite]
      generalize (m.fetch a s).dispatch settings (a.index :: a.site) statement = first at hd ⊢
      generalize (n.fetch b t).dispatch settings (a.index :: a.site) statement = second at hd ⊢
      right
      cases hd with
      | running hd => exact .running (hd.mapRecorder (hc.follow hd.recorder))
      | stopped hd why => exact .stopped hd why

/-- What two machines have lost, turns of either of them do not bring back. -/
theorem lost_advance (settings : EngineSettings) (hc : Coupling limit Allowed Starts R Lost)
    (hm : m.recorder.Following) (hn : n.recorder.Following) (h : Lost m.recorder n.recorder) :
    Lost (m.advance settings limit).recorder (n.advance settings limit).recorder :=
  kept_advance (hc.right _) settings limit hn (kept_advance (hc.left _) settings limit hm h)

theorem advance_like (settings : EngineSettings) (hc : Coupling limit Allowed Starts R Lost)
    (h : Alike Starts R m n) (hm : m.recorder.Following) (hn : n.recorder.Following)
    (hallowed : m.Next Allowed) :
    Lost (m.advance settings limit).recorder (n.advance settings limit).recorder ∨
      Outcome.Like Starts R (m.advance settings limit) (n.advance settings limit) := by
  rcases hc.limits h.recorder with hl | hsame
  · exact .inl (lost_advance settings hc hm hn hl)
  · have hstack := h.stack
    unfold Next at hallowed
    unfold advance
    generalize m.stack = s at hstack hallowed ⊢
    generalize n.stack = t at hstack ⊢
    cases hstack with
    | nil => exact .inr (.stopped h _)
    | cons hab hst =>
      simp only [h.steps, hsame]
      split
      · exact .inr (.stopped h _)
      · split
        · exact .inr (.stopped h _)
        · exact turn_like settings hc h hab hst fun statement => hallowed _ _ statement rfl

/-- Machines that are alike stay alike on the whole run, unless they are lost. -/
theorem run_like (settings : EngineSettings) (hc : Coupling limit Allowed Starts R Lost)
    (h : Alike Starts R m n) (hm : m.recorder.Following) (hn : n.recorder.Following)
    (hallowed : ∀ k, Reaches settings limit m k → k.Next Allowed) :
    Lost (m.run settings limit).1.recorder (n.run settings limit).1.recorder ∨
      (Alike Starts R (m.run settings limit).1 (n.run settings limit).1 ∧
        (m.run settings limit).2 = (n.run settings limit).2) := by
  induction n using run.induct settings limit generalizing m with
  | case1 n n' why hstop =>
    rcases advance_like settings hc h hm hn (hallowed m .refl) with hl | hlike
    · exact .inl (kept_run_of_advance (hc.right _) hn (kept_run_of_advance (hc.left _) hm hl))
    · rw [hstop] at hlike
      generalize hfirst : m.advance settings limit = first at hlike
      cases hlike with
      | stopped hlast =>
        rw [run_of_stopped hfirst, run_of_stopped hstop]
        exact .inr ⟨hlast, rfl⟩
  | case2 n n' hstep ih =>
    rcases advance_like settings hc h hm hn (hallowed m .refl) with hl | hlike
    · exact .inl (kept_run_of_advance (hc.right _) hn (kept_run_of_advance (hc.left _) hm hl))
    · have hnextm := following_advance settings limit hm
      have hnextn := following_advance settings limit hn
      rw [hstep] at hlike hnextn
      generalize hfirst : m.advance settings limit = first at hlike hnextm
      cases hlike with
      | running halike =>
        rw [run_of_running hfirst, run_of_running hstep]
        exact ih halike hnextm hnextn fun k hk => hallowed k (.head hfirst hk)

end Machine
end Choreography
