import Choreography.Proofs.Structured
import Choreography.Proofs.Turns

/-! # The stack as a continuation

The stack of the machine stands for a continuation: what the open blocks still do once the block
above them has ended. The shared counters of the passes cause no confusion as long as no sequence
can call itself, because no loop is then open twice. -/
namespace Choreography
namespace Machine
open Recorder

variable {settings : EngineSettings} {p : Program}

/-! ### What open blocks still do -/

/-- Passes that are left of an open loop after the current one. -/
def passesLeft (counters : List (Site × Int)) (site : Site) : PassCount → Option Nat
  | .short total => some (total - ((Assoc.find? site counters).getD 0 + 1)).toNat
  | .long total => total.map fun n => (n - ((Assoc.find? site counters).getD 0 + 1)).toNat

/-- What the rest of the innermost block does. If a signal comes up from above, nothing. -/
def Continues (settings : EngineSettings) (a : Activation) (inLoop : Bool) (signal : Signal)
    (σ σ' : Situation) (signal' : Signal) : Prop :=
  if signal = .next then
    Executes settings inLoop (.block a.site a.index (a.block.drop a.index)) σ σ' signal'
  else σ' = σ ∧ signal' = signal

/-- How an activation is left when its block has ended with a signal. -/
def Leaves (settings : EngineSettings) (counters : List (Site × Int)) (a : Activation)
    (below : List Activation) (signal : Signal) (σ σ' : Situation) (signal' : Signal) : Prop :=
  match a.kind with
  | .block => σ' = σ ∧ signal' = signal
  | .segment name start =>
      (σ' = σ.map fun r => (r.closeSpan name start).setSegment (activeSegment below)) ∧
        signal' = signal
  | .loop site passes =>
      signal' = .next ∧
        if signal = .breakLoop then σ' = σ
        else Executes settings (below.any Activation.isLoop)
          (.passes a.site a.block (passesLeft counters site passes)) σ σ' .next

/-- What all open activations do from a situation on. -/
def Completes (settings : EngineSettings) (counters : List (Site × Int)) :
    List Activation → Signal → Situation → Situation → Prop
  | [], _, σ, final => final = σ
  | a :: below, signal, σ, final =>
      ∃ σ₁ signal₁ σ₂ signal₂,
        Continues settings a ((a :: below).any Activation.isLoop) signal σ σ₁ signal₁ ∧
        Leaves settings counters a below signal₁ σ₁ σ₂ signal₂ ∧
        Completes settings counters below signal₂ σ₂ final

/-- The counters of other loops do not matter. -/
theorem Completes.congr {counters counters' : List (Site × Int)} {stack : List Activation}
    {signal : Signal} {σ final : Situation} (h : Completes settings counters stack signal σ final)
    (heq : ∀ a ∈ stack, ∀ site passes, a.kind = .loop site passes →
      Assoc.find? site counters = Assoc.find? site counters') :
    Completes settings counters' stack signal σ final := by
  induction stack generalizing signal σ with
  | nil => exact h
  | cons a below ih =>
    obtain ⟨σ₁, signal₁, σ₂, signal₂, hcontinues, hleaves, hbelow⟩ := h
    refine ⟨σ₁, signal₁, σ₂, signal₂, hcontinues, ?_, ih hbelow fun b hb =>
      heq b (List.mem_cons_of_mem a hb)⟩
    unfold Leaves at *
    split at hleaves
    · exact hleaves
    · exact hleaves
    · rename_i site passes hkind
      have hcount := heq a List.mem_cons_self site passes hkind
      have hleft : passesLeft counters site passes = passesLeft counters' site passes := by
        cases passes <;> simp only [passesLeft, hcount]
      rwa [hleft] at hleaves

/-- The statement at the index of the innermost block is executed first. -/
theorem Completes.cons {counters : List (Site × Int)} {top : Activation} {below : List Activation}
    {s : Statement} (hs : top.block[top.index]? = some s) {signal : Signal}
    {σ σ' final : Situation}
    (hfirst : Executes settings ((top :: below).any Activation.isLoop)
      (.statement (top.index :: top.site) s) σ σ' signal)
    (h : Completes settings counters ({ top with index := top.index + 1 } :: below) signal σ' final) :
    Completes settings counters (top :: below) .next σ final := by
  obtain ⟨σ₁, signal₁, σ₂, signal₂, hcontinues, hleaves, hbelow⟩ := h
  refine ⟨σ₁, signal₁, σ₂, signal₂, ?_, hleaves, hbelow⟩
  obtain ⟨hlt, hget⟩ := List.getElem?_eq_some_iff.mp hs
  have hdrop : top.block.drop top.index = s :: top.block.drop (top.index + 1) := by
    rw [List.drop_eq_getElem_cons hlt, hget]
  unfold Continues at *
  rw [if_pos rfl, hdrop]
  split at hcontinues
  · rename_i hnext
    subst hnext
    exact .cons hfirst hcontinues
  · rename_i hsignal
    obtain ⟨rfl, rfl⟩ := hcontinues
    exact .stop hfirst hsignal

/-- A block that has been entered is executed by itself, and then what it was entered from. -/
theorem Completes.enter {counters : List (Site × Int)} {site : Site} {block : Block}
    {stack : List Activation} {σ final : Situation}
    (h : Completes settings counters (⟨site, block, 0, .block⟩ :: stack) .next σ final) :
    ∃ σ' signal, Executes settings (stack.any Activation.isLoop) (.block site 0 block) σ σ' signal ∧
      Completes settings counters stack signal σ' final := by
  obtain ⟨σ₁, signal₁, σ₂, signal₂, hcontinues, hleaves, hstack⟩ := h
  obtain ⟨rfl, rfl⟩ := hleaves
  exact ⟨σ₂, signal₂, hcontinues, hstack⟩

theorem Completes.enterSegment {counters : List (Site × Int)} {site : Site} {block : Block}
    {name : String} {start : Nat} {stack : List Activation} {σ final : Situation}
    (h : Completes settings counters (⟨site, block, 0, .segment name start⟩ :: stack) .next σ
      final) :
    ∃ σ' signal, Executes settings (stack.any Activation.isLoop) (.block site 0 block) σ σ' signal ∧
      Completes settings counters stack signal
        (σ'.map fun r => (r.closeSpan name start).setSegment (activeSegment stack)) final := by
  obtain ⟨σ₁, signal₁, σ₂, signal₂, hcontinues, hleaves, hstack⟩ := h
  obtain ⟨rfl, rfl⟩ := hleaves
  exact ⟨σ₁, signal₂, hcontinues, hstack⟩

theorem Completes.enterLoop {counters : List (Site × Int)} {site key : Site} {block : Block}
    {passes : PassCount} {stack : List Activation} {σ final : Situation} {left : Option Nat}
    (h : Completes settings counters (⟨site, block, 0, .loop key passes⟩ :: stack) .next σ final)
    (hleft : left ≠ some 0) (heq : left.map (· - 1) = passesLeft counters key passes) :
    ∃ σ', Executes settings (stack.any Activation.isLoop) (.passes site block left) σ σ' .next ∧
      Completes settings counters stack .next σ' final := by
  obtain ⟨σ₁, signal₁, σ₂, signal₂, hcontinues, hleaves, hstack⟩ := h
  obtain ⟨rfl, hleaves⟩ := hleaves
  refine ⟨σ₂, ?_, hstack⟩
  split at hleaves
  · rename_i hbreak
    subst hbreak hleaves
    exact .broken hleft hcontinues
  · rename_i hsignal
    rw [← heq] at hleaves
    exact .again hleft hcontinues hsignal hleaves

theorem unwindTo_setSegment (resume : Activation → List Activation → List Activation)
    (stack : List Activation) (r : Recorder) (name : Option String) :
    unwindTo resume stack (r.setSegment name) =
      ((unwindTo resume stack r).1, (unwindTo resume stack r).2.setSegment name) := by
  induction stack generalizing r with
  | nil => rfl
  | cons a below ih =>
    have hclose : close a (r.setSegment name) = (close a r).setSegment name := by
      unfold close
      split <;> rfl
    simp only [unwindTo, hclose, ih]
    split <;> rfl

theorem setSegment_eq {r : Recorder} {name : Option String} (h : r.activeSegment = name) :
    r.setSegment name = r := by
  subst h
  rfl

theorem activeSegment_cons {a : Activation} (below : List Activation)
    (h : ∀ name start, a.kind ≠ .segment name start) :
    activeSegment (a :: below) = activeSegment below := by
  rw [activeSegment]
  split
  · rename_i name start hkind
    exact absurd hkind (h name start)
  · rfl

/-- Unwinding to a loop at once does what passing a signal down to the loop does. -/
theorem Completes.unwindTo {counters : List (Site × Int)}
    {resume : Activation → List Activation → List Activation} {signal : Signal}
    (hsignal : signal ≠ .next)
    (hresume : ∀ {a : Activation} {below : List Activation} {σ final : Situation}, a.isLoop = true →
      Completes settings counters (resume a below) .next σ final →
      Completes settings counters (a :: below) signal σ final)
    (hsegment : ∀ (a : Activation) (below : List Activation), a.isLoop = true →
      activeSegment (resume a below) = activeSegment (a :: below))
    {stack : List Activation} {r : Recorder} {sequences : Table Sequence} {final : Situation}
    (hr : r.activeSegment = activeSegment stack)
    (h : Completes settings counters (unwindTo resume stack r).1 .next
      ⟨(unwindTo resume stack r).2.setSegment (activeSegment (unwindTo resume stack r).1),
        sequences⟩ final) :
    Completes settings counters stack signal ⟨r, sequences⟩ final := by
  induction stack generalizing r with
  | nil =>
    rw [Machine.unwindTo, setSegment_eq hr] at h
    exact h
  | cons a below ih =>
    have hup : Continues settings a ((a :: below).any Activation.isLoop) signal ⟨r, sequences⟩
        ⟨r, sequences⟩ signal := by
      rw [Continues, if_neg hsignal]
      exact ⟨rfl, rfl⟩
    rw [Machine.unwindTo] at h
    cases hkind : a.kind with
    | block =>
      have hbelow := hr.trans (activeSegment_cons below (by simp [hkind]))
      simp only [Activation.isLoop, hkind, close, Bool.false_eq_true, if_false] at h
      exact ⟨_, _, _, _, hup, by simp only [Leaves, hkind, and_self], ih hbelow h⟩
    | segment name start =>
      simp only [Activation.isLoop, hkind, close, Bool.false_eq_true, if_false] at h
      refine ⟨_, _, ⟨(r.closeSpan name start).setSegment (activeSegment below), sequences⟩, _, hup,
        by simp only [Leaves, hkind, and_self, Situation.map], ih rfl ?_⟩
      rw [unwindTo_setSegment]
      exact h
    | loop site passes =>
      have hloop : a.isLoop = true := by simp only [Activation.isLoop, hkind]
      rw [if_pos hloop, setSegment_eq (hr.trans (hsegment a below hloop).symm)] at h
      exact hresume hloop h

theorem Completes.leaveLoop {counters : List (Site × Int)} {a : Activation}
    {below : List Activation} {σ final : Situation} (ha : a.isLoop = true)
    (h : Completes settings counters (leaveLoop a below) .next σ final) :
    Completes settings counters (a :: below) .breakLoop σ final := by
  refine ⟨σ, .breakLoop, σ, .next, ⟨rfl, rfl⟩, ?_, h⟩
  unfold Activation.isLoop at ha
  split at ha
  · rename_i site passes hkind
    simp only [Leaves, hkind, if_true, and_self]
  · cases ha

theorem Completes.endPass {counters : List (Site × Int)} {a : Activation}
    {below : List Activation} {σ final : Situation} (ha : a.isLoop = true)
    (h : Completes settings counters (endPass a below) .next σ final) :
    Completes settings counters (a :: below) .continueLoop σ final := by
  obtain ⟨σ₁, signal₁, σ₂, signal₂, hcontinues, hleaves, hbelow⟩ := h
  obtain ⟨inLoop, hend⟩ : ∃ inLoop,
      Executes settings inLoop (.block a.site a.block.length []) σ σ₁ signal₁ :=
    ⟨_, by simpa only [Continues, if_true, List.drop_length] using hcontinues⟩
  cases hend
  refine ⟨σ, .continueLoop, σ₂, signal₂, ⟨rfl, rfl⟩, ?_, hbelow⟩
  unfold Activation.isLoop at ha
  split at ha
  · rename_i site passes hkind
    simpa only [Leaves, hkind, reduceCtorEq, if_false] using hleaves
  · cases ha

/-! ### What holds of the stack -/

structure Nested (p : Program) (stack : List Activation) : Prop where
  located : ∀ a ∈ stack, ∃ home, p.blockAt a.site = some (home, a.block)
  loops : ∀ a ∈ stack, ∀ site passes, a.kind = .loop site passes → site = a.site
  inside : stack.Pairwise fun a b => p.Inside a.site b.site

namespace Nested

theorem tail {a : Activation} {below : List Activation} (h : Nested p (a :: below)) :
    Nested p below where
  located b hb := h.located b (List.mem_cons_of_mem a hb)
  loops b hb := h.loops b (List.mem_cons_of_mem a hb)
  inside := (List.pairwise_cons.mp h.inside).2

theorem push {a top : Activation} {below : List Activation} (h : Nested p (top :: below))
    {home : Option String} (hlocated : p.blockAt a.site = some (home, a.block))
    (hloop : ∀ site passes, a.kind = .loop site passes → site = a.site)
    (hinside : p.Inside a.site top.site) : Nested p (a :: top :: below) where
  located b hb := by
    rcases List.mem_cons.mp hb with rfl | hb
    · exact ⟨home, hlocated⟩
    · exact h.located b hb
  loops b hb := by
    rcases List.mem_cons.mp hb with rfl | hb
    · exact hloop
    · exact h.loops b hb
  inside := by
    refine List.pairwise_cons.mpr ⟨fun b hb => ?_, h.inside⟩
    rcases List.mem_cons.mp hb with rfl | hb
    · exact hinside
    · exact hinside.trans ((List.pairwise_cons.mp h.inside).1 b hb)

theorem reindex {top : Activation} {below : List Activation} (h : Nested p (top :: below))
    (i : Nat) : Nested p ({ top with index := i } :: below) where
  located b hb := by
    rcases List.mem_cons.mp hb with rfl | hb
    · exact h.located top List.mem_cons_self
    · exact h.located b (List.mem_cons_of_mem top hb)
  loops b hb := by
    rcases List.mem_cons.mp hb with rfl | hb
    · exact h.loops top List.mem_cons_self
    · exact h.loops b (List.mem_cons_of_mem top hb)
  inside := by
    obtain ⟨hfirst, hrest⟩ := List.pairwise_cons.mp h.inside
    exact List.pairwise_cons.mpr ⟨hfirst, hrest⟩

/-- A loop on top of the stack is not open anywhere else. -/
theorem fresh (hp : p.Acyclic) {a : Activation} {below : List Activation}
    (h : Nested p (a :: below)) {b : Activation} (hb : b ∈ below) {site : Site}
    {passes : PassCount} (hkind : b.kind = .loop site passes) : site ≠ a.site := by
  rw [h.loops b (List.mem_cons_of_mem a hb) site passes hkind]
  exact (((List.pairwise_cons.mp h.inside).1 b hb).ne hp).symm

theorem unwindTo {resume : Activation → List Activation → List Activation}
    (hresume : ∀ {a : Activation} {below : List Activation}, Nested p (a :: below) →
      Nested p (resume a below))
    {stack : List Activation} (h : Nested p stack) (r : Recorder) :
    Nested p (unwindTo resume stack r).1 := by
  induction stack generalizing r with
  | nil => exact h
  | cons a below ih =>
    rw [Machine.unwindTo]
    split
    · exact hresume h
    · exact ih h.tail _

end Nested

structure WellNested (p : Program) (m : Machine) : Prop where
  nested : Nested p m.stack
  defined : ∀ name q, m.sequences.find? name = some q →
    p.blockAt q.site = some (some name, q.body)
  segment : m.recorder.activeSegment = activeSegment m.stack
  following : m.recorder.Following

theorem wellNested_start (p : Program) {r : Recorder} (hsegment : r.activeSegment = none)
    (hfollowing : r.Following) : WellNested p (start p r) where
  nested := by
    refine ⟨fun a ha => ?_, fun a ha site passes hkind => ?_, List.pairwise_singleton _ _⟩
    · rw [List.mem_singleton.mp ha]
      exact ⟨none, p.blockAt_nil⟩
    · rw [List.mem_singleton.mp ha] at hkind
      cases hkind
  defined name q h := by cases h
  segment := hsegment
  following := hfollowing

/-- What a machine stands for. -/
def Means (settings : EngineSettings) (m : Machine) (final : Situation) : Prop :=
  Completes settings m.counters m.stack .next ⟨m.recorder, m.sequences⟩ final

def Refines (settings : EngineSettings) (p : Program) (m m' : Machine) : Prop :=
  WellNested p m' ∧ ∀ final, Means settings m' final → Means settings m final

end Machine
end Choreography
