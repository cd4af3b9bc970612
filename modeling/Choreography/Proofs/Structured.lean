import Choreography.Proofs.Recording
import Choreography.Proofs.CallGraph

/-! # A structural semantics of programs

What a program means by the structure of its text alone: no stack, no counters, no limits. Whether
a loop is open around a statement is handed down, and a statement hands back whether it ends that
loop or its pass. Movements mean what they do to the recorder. -/
namespace Choreography

/-- How a statement ends: the next one follows, or the innermost open loop is left, or its pass. -/
inductive Signal where
  | next
  | breakLoop
  | continueLoop
deriving DecidableEq, Repr

/-- What there is to execute: a statement, the rest of a block from an index on, or the passes that
are left of a loop; none for a loop without end. -/
inductive Task where
  | statement (site : Site) (s : Statement)
  | block (site : Site) (index : Nat) (rest : Block)
  | passes (site : Site) (body : Block) (left : Option Nat)

structure Situation where
  recorder : Recorder
  sequences : Table Sequence

def Situation.map (σ : Situation) (f : Recorder → Recorder) : Situation :=
  { σ with recorder := f σ.recorder }

/-- An arm is chosen if its condition is the first one that holds; the last arm has none. -/
def Chosen (env : Env) (branches : List Branch) (otherwise : Block) (i : Nat) (arm : Block) : Prop :=
  (Statement.arms branches otherwise)[i]? = some arm ∧
    (∀ b, branches[i]? = some b → env.evalCondition b.condition = true) ∧
    ∀ j < i, ∀ b, branches[j]? = some b → env.evalCondition b.condition = false

def passesOf (env : Env) : LoopCount → Option Nat
  | .infinite => none
  | .times e => some (env.evalInteger e).toNat

/-- What entering a loop records: faults of its count and, for a long one, the loop start. -/
def openLoop (settings : EngineSettings) (count : LoopCount) (r : Recorder) : Recorder :=
  let noted := r.note (Machine.passFaults r.env count)
  match Machine.total? r.env count with
  | none => noted
  | some total => Machine.markLoopStart (Machine.passCount settings total) noted

/-- The structural semantics; the flag says whether a loop is open. -/
inductive Executes (settings : EngineSettings) :
    Bool → Task → Situation → Situation → Signal → Prop
  | effect {inLoop : Bool} {site : Site} {s : Statement} {f : Recorder → Recorder} {σ : Situation}
      (h : s.effect? site = some f) :
      Executes settings inLoop (.statement site s) σ (σ.map fun r => (f r).follow) .next
  | define {inLoop : Bool} {site : Site} {name : String} {body : Block} {σ : Situation} :
      Executes settings inLoop (.statement site (.define name body)) σ
        { σ with sequences := σ.sequences.insert name ⟨site, body⟩ } .next
  | call {inLoop : Bool} {site : Site} {name : String} {q : Sequence} {σ σ' : Situation}
      {signal : Signal} (h : σ.sequences.find? name = some q)
      (hbody : Executes settings inLoop (.block q.site 0 q.body) σ σ' signal) :
      Executes settings inLoop (.statement site (.call name)) σ σ' signal
  | undefined {inLoop : Bool} {site : Site} {name : String} {σ : Situation}
      (h : σ.sequences.find? name = none) :
      Executes settings inLoop (.statement site (.call name)) σ
        (σ.map (·.note [.undefinedSequence name])) .next
  | conditional {inLoop : Bool} {site : Site} {branches : List Branch} {otherwise : Block} {i : Nat}
      {arm : Block} {σ σ' : Situation} {signal : Signal}
      (h : Chosen σ.recorder.env branches otherwise i arm)
      (hbody : Executes settings inLoop (.block (i :: site) 0 arm)
        (σ.map fun r => r.note (Machine.branchFaults r.env branches)) σ' signal) :
      Executes settings inLoop (.statement site (.conditional branches otherwise)) σ σ' signal
  | loop {inLoop : Bool} {site : Site} {count : LoopCount} {body : Block} {σ σ' : Situation}
      (hpasses : Executes settings inLoop (.passes site body (passesOf σ.recorder.env count))
        (σ.map (openLoop settings count)) σ' .next) :
      Executes settings inLoop (.statement site (.loop count body)) σ σ' .next
  | segment {inLoop : Bool} {site : Site} {name : String} {body : Block} {σ σ' : Situation}
      {signal : Signal}
      (hbody : Executes settings inLoop (.block site 0 body) (σ.map (·.setSegment (some name))) σ'
        signal) :
      Executes settings inLoop (.statement site (.segment name body)) σ
        (σ'.map fun r =>
          (r.closeSpan name σ.recorder.tick).setSegment σ.recorder.activeSegment) signal
  | breakLoop {site : Site} {σ : Situation} :
      Executes settings true (.statement site .breakLoop) σ σ .breakLoop
  | strayBreak {site : Site} {σ : Situation} :
      Executes settings false (.statement site .breakLoop) σ (σ.map (·.note [.strayBreak])) .next
  | continueLoop {site : Site} {σ : Situation} :
      Executes settings true (.statement site .continueLoop) σ σ .continueLoop
  | strayContinue {site : Site} {σ : Situation} :
      Executes settings false (.statement site .continueLoop) σ (σ.map (·.note [.strayContinue]))
        .next
  | nil {inLoop : Bool} {site : Site} {i : Nat} {σ : Situation} :
      Executes settings inLoop (.block site i []) σ σ .next
  | cons {inLoop : Bool} {site : Site} {i : Nat} {s : Statement} {rest : Block}
      {σ σ₁ σ₂ : Situation} {signal : Signal}
      (hfirst : Executes settings inLoop (.statement (i :: site) s) σ σ₁ .next)
      (hrest : Executes settings inLoop (.block site (i + 1) rest) σ₁ σ₂ signal) :
      Executes settings inLoop (.block site i (s :: rest)) σ σ₂ signal
  | stop {inLoop : Bool} {site : Site} {i : Nat} {s : Statement} {rest : Block} {σ σ' : Situation}
      {signal : Signal} (hfirst : Executes settings inLoop (.statement (i :: site) s) σ σ' signal)
      (hsignal : signal ≠ .next) :
      Executes settings inLoop (.block site i (s :: rest)) σ σ' signal
  | exhausted {inLoop : Bool} {site : Site} {body : Block} {σ : Situation} :
      Executes settings inLoop (.passes site body (some 0)) σ σ .next
  | again {inLoop : Bool} {site : Site} {body : Block} {left : Option Nat} {σ σ₁ σ₂ : Situation}
      {signal : Signal} (hleft : left ≠ some 0)
      (hpass : Executes settings true (.block site 0 body) σ σ₁ signal)
      (hsignal : signal ≠ .breakLoop)
      (hrest : Executes settings inLoop (.passes site body (left.map (· - 1))) σ₁ σ₂ .next) :
      Executes settings inLoop (.passes site body left) σ σ₂ .next
  | broken {inLoop : Bool} {site : Site} {body : Block} {left : Option Nat} {σ σ' : Situation}
      (hleft : left ≠ some 0)
      (hpass : Executes settings true (.block site 0 body) σ σ' .breakLoop) :
      Executes settings inLoop (.passes site body left) σ σ' .next

variable {settings : EngineSettings}

/-- Outside of all loops every statement is followed by the next one. -/
theorem Executes.signal_eq {inLoop : Bool} {task : Task} {σ σ' : Situation} {signal : Signal}
    (h : Executes settings inLoop task σ σ' signal) (hout : inLoop = false) : signal = .next := by
  induction h with
  | breakLoop => cases hout
  | continueLoop => cases hout
  | call _ _ ih => exact ih hout
  | conditional _ _ ih => exact ih hout
  | segment _ ih => exact ih hout
  | cons _ _ _ ih => exact ih hout
  | stop _ hsignal ih => exact absurd (ih hout) hsignal
  | _ => rfl

theorem Chosen.unique {env : Env} {branches : List Branch} {otherwise : Block} {i j : Nat}
    {arm arm' : Block} (hi : Chosen env branches otherwise i arm)
    (hj : Chosen env branches otherwise j arm') : i = j ∧ arm = arm' := by
  have hle : ∀ {i j : Nat} {arm arm' : Block}, Chosen env branches otherwise i arm →
      Chosen env branches otherwise j arm' → i ≤ j := by
    intro i j arm arm' hi hj
    refine Nat.le_of_not_lt fun hlt => ?_
    have hlen : i < (Statement.arms branches otherwise).length :=
      (List.getElem?_eq_some_iff.mp hi.1).1
    simp only [Statement.arms, List.length_append, List.length_map, List.length_singleton] at hlen
    obtain ⟨b, hb⟩ : ∃ b, branches[j]? = some b := ⟨_, List.getElem?_eq_getElem (by omega)⟩
    have htrue := hj.2.1 _ hb
    have hfalse := hi.2.2 j (by omega) _ hb
    rw [htrue] at hfalse
    cases hfalse
  have heq : i = j := Nat.le_antisymm (hle hi hj) (hle hj hi)
  subst heq
  exact ⟨rfl, Option.some.inj (hi.1.symm.trans hj.1)⟩

theorem Machine.chooseBranch_spec (env : Env) (i : Nat) (branches : List Branch) (otherwise : Block) :
    ∃ k arm, (chooseBranch env i branches).getD (i + branches.length, otherwise) = (i + k, arm) ∧
      Chosen env branches otherwise k arm := by
  induction branches generalizing i with
  | nil =>
    refine ⟨0, otherwise, rfl, rfl, ?_, ?_⟩
    · intro b hb
      cases hb
    · intro j hj
      omega
  | cons b rest ih =>
    simp only [chooseBranch]
    split
    · rename_i hcondition
      refine ⟨0, b.body, rfl, rfl, ?_, ?_⟩
      · intro c hc
        cases hc
        exact hcondition
      · intro j hj
        omega
    · rename_i hcondition
      obtain ⟨k, arm, heq, hchosen⟩ := ih (i + 1)
      refine ⟨k + 1, arm, ?_, ?_, ?_, ?_⟩
      · have hlength : i + (b :: rest).length = i + 1 + rest.length := by
          rw [List.length_cons]
          omega
        rw [hlength, heq]
        congr 1
        omega
      · exact hchosen.1
      · exact hchosen.2.1
      · intro j hj c hc
        cases j with
        | zero =>
          cases hc
          simpa using hcondition
        | succ j => exact hchosen.2.2 j (by omega) c hc

theorem Machine.chooseBranch_mem (env : Env) (branches : List Branch) (otherwise : Block) :
    ((chooseBranch env 0 branches).getD (branches.length, otherwise)).2 ∈
      Statement.arms branches otherwise := by
  obtain ⟨k, arm, heq, hchosen⟩ := chooseBranch_spec env 0 branches otherwise
  rw [Nat.zero_add] at heq
  rw [heq]
  exact List.mem_of_getElem? hchosen.1

/-- The semantics is a partial function. -/
theorem Executes.unique {inLoop : Bool} {task : Task} {σ σ₁ σ₂ : Situation}
    {signal₁ signal₂ : Signal} (h₁ : Executes settings inLoop task σ σ₁ signal₁)
    (h₂ : Executes settings inLoop task σ σ₂ signal₂) : σ₁ = σ₂ ∧ signal₁ = signal₂ := by
  induction h₁ generalizing σ₂ signal₂ with
  | effect h =>
    cases h₂ with
    | effect h' =>
      rw [h] at h'
      cases h'
      exact ⟨rfl, rfl⟩
    | _ => cases h
  | call h _ ih =>
    cases h₂ with
    | effect h' => cases h'
    | call h' hbody' =>
      rw [h] at h'
      cases h'
      exact ih hbody'
    | undefined h' =>
      rw [h] at h'
      cases h'
  | undefined h =>
    cases h₂ with
    | effect h' => cases h'
    | call h' hbody' =>
      rw [h] at h'
      cases h'
    | undefined h' => exact ⟨rfl, rfl⟩
  | conditional h _ ih =>
    cases h₂ with
    | effect h' => cases h'
    | conditional h' hbody' =>
      obtain ⟨rfl, rfl⟩ := h.unique h'
      exact ih hbody'
  | loop _ ih =>
    cases h₂ with
    | effect h' => cases h'
    | loop hpasses' => exact ih hpasses'
  | segment _ ih =>
    cases h₂ with
    | effect h' => cases h'
    | segment hbody' =>
      obtain ⟨rfl, rfl⟩ := ih hbody'
      exact ⟨rfl, rfl⟩
  | nil =>
    cases h₂
    exact ⟨rfl, rfl⟩
  | cons _ _ ihfirst ihrest =>
    cases h₂ with
    | cons hfirst' hrest' =>
      obtain ⟨rfl, -⟩ := ihfirst hfirst'
      exact ihrest hrest'
    | stop hfirst' hsignal' => exact absurd (ihfirst hfirst').2.symm hsignal'
  | stop _ hsignal ih =>
    cases h₂ with
    | cons hfirst' hrest' => exact absurd (ih hfirst').2 hsignal
    | stop hfirst' hsignal' => exact ih hfirst'
  | exhausted =>
    cases h₂ with
    | exhausted => exact ⟨rfl, rfl⟩
    | again hleft' => exact absurd rfl hleft'
    | broken hleft' => exact absurd rfl hleft'
  | again hleft _ hsignal _ ihpass ihrest =>
    cases h₂ with
    | exhausted => exact absurd rfl hleft
    | again hleft' hpass' hsignal' hrest' =>
      obtain ⟨rfl, -⟩ := ihpass hpass'
      exact ihrest hrest'
    | broken hleft' hpass' => exact absurd (ihpass hpass').2 hsignal
  | broken hleft _ ihpass =>
    cases h₂ with
    | exhausted => exact absurd rfl hleft
    | again hleft' hpass' hsignal' hrest' => exact absurd (ihpass hpass').2.symm hsignal'
    | broken hleft' hpass' => exact ⟨(ihpass hpass').1, rfl⟩
  | _ =>
    cases h₂ with
    | effect h' => cases h'
    | _ => exact ⟨rfl, rfl⟩

/-- A program yields what its statements record from the start. -/
def Performance.Yields (p : Performance) (r : Recorder) : Prop :=
  ∃ sequences, Executes p.settings false (.block [] 0 p.program.statements) ⟨p.recorder, ∅⟩
    ⟨r, sequences⟩ .next

end Choreography
