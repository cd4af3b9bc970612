import Choreography.Proofs.Structured
import Choreography.Proofs.Turns

/-! # Moves of the stack

Where a machine goes on depends on its stack, on the counters of the loops and on the sequences. One
turn changes these in one of a few ways, whatever it records: it takes a statement off the innermost
block, enters a block above it, unwinds to a loop, leaves a block or ends a pass. -/
namespace Choreography

def PassCount.total : PassCount → Option Int
  | .short total => some total
  | .long total => total

namespace Machine

variable {settings : EngineSettings} {limit : Nat} {m m' : Machine} {site : Site} {s : Statement}
  {top : Activation} {below : List Activation}

theorem total_passCount (settings : EngineSettings) (total : Option Int) :
    (passCount settings total).total = total := by
  cases total with
  | none => rfl
  | some n =>
    simp only [passCount]
    split <;> rfl

/-- The part of a machine that decides where it goes on. -/
structure Control where
  stack : List Activation
  counters : List (Site × Int)
  sequences : Table Sequence

def control (m : Machine) : Control := ⟨m.stack, m.counters, m.sequences⟩

theorem control_of_enter {a : Activation} (h : m.enter settings a = .running m') :
    m'.control = ⟨a :: m.stack, m.counters, m.sequences⟩ := by
  rw [eq_of_enter h]
  rfl

theorem control_of_enterLoop {body : Block} {total : Option Int}
    (h : m.enterLoop settings site body total = .running m') :
    m'.control = ⟨⟨site, body, 0, .loop site (passCount settings total)⟩ :: m.stack,
      Assoc.assign site 0 m.counters, m.sequences⟩ := by
  unfold enterLoop at h
  rw [control_of_enter h]
  rfl

theorem control_of_follow {out : Outcome} (h : out.follow = .running m') :
    ∃ n, out = .running n ∧ m'.control = n.control := by
  cases out with
  | running n =>
    cases h
    exact ⟨n, rfl, rfl⟩
  | stopped n why => cases h

theorem control_countPass (settings : EngineSettings) (m : Machine) :
    (m.countPass settings).1.control = m.control := by
  simp only [countPass]
  split <;> rfl

theorem control_nextPass (m : Machine) (top : Activation) (below : List Activation) (again : Bool) :
    (m.nextPass top below again).control =
      ⟨if again then { top with index := 0 } :: below else below, m.counters, m.sequences⟩ := by
  cases again <;> rfl

/-- The statement at a site opens a block at another one: a block that stands in it, or a sequence
that it calls. -/
inductive Opens (sequences : Table Sequence) (site : Site) : Statement → Site → Block → Prop
  | segment (name : String) (body : Block) :
      Opens sequences site (.segment name body) site body
  | arm {branches : List Branch} {otherwise arm : Block} {i : Nat}
      (harm : (Statement.arms branches otherwise)[i]? = some arm) :
      Opens sequences site (.conditional branches otherwise) (i :: site) arm
  | call {name : String} {q : Sequence} (hq : sequences.find? name = some q) :
      Opens sequences site (.call name) q.site q.body

/-- What executing the statement at a site does to the control. -/
inductive Executed (settings : EngineSettings) (m : Machine) (site : Site) (s : Statement) :
    Control → Prop
  | done : Executed settings m site s m.control
  | defined {name : String} {body : Block} (hs : s = .define name body) :
      Executed settings m site s
        ⟨m.stack, m.counters, m.sequences.insert name ⟨site, body⟩⟩
  | entered {a : Activation} (hopens : Opens m.sequences site s a.site a.block)
      (hkind : a.isLoop = false) :
      Executed settings m site s ⟨a :: m.stack, m.counters, m.sequences⟩
  | looped {count : LoopCount} {body : Block} {total : Option Int} (hs : s = .loop count body)
      (htotal : total? m.recorder.env count = some total) :
      Executed settings m site s
        ⟨⟨site, body, 0, .loop site (passCount settings total)⟩ :: m.stack,
          Assoc.assign site 0 m.counters, m.sequences⟩
  | unwound {resume : Activation → List Activation → List Activation}
      (hresume : resume = leaveLoop ∨ resume = endPass) :
      Executed settings m site s
        ⟨(unwindTo resume m.stack m.recorder).1, m.counters, m.sequences⟩

theorem executed_of_enter {a : Activation} {f : Recorder → Recorder}
    (h : (m.mapRecorder f).enter settings a = .running m')
    (hopens : Opens m.sequences site s a.site a.block) (hkind : a.isLoop = false) :
    Executed settings m site s m'.control := by
  rw [control_of_enter h]
  exact .entered hopens hkind

theorem executed_of_dispatch (h : m.dispatch settings site s = .running m') :
    Executed settings m site s m'.control := by
  cases s with
  | loop count body =>
    simp only [dispatch] at h
    split at h
    · cases h
      exact .done
    · rename_i total htotal
      rw [control_of_enterLoop h]
      exact .looped rfl htotal
  | conditional branches otherwise =>
    obtain ⟨i, arm, heq, hchosen⟩ := chooseBranch_spec m.recorder.env 0 branches otherwise
    rw [Nat.zero_add, Nat.zero_add] at heq
    simp only [dispatch, heq] at h
    split at h
    · cases h
      exact .done
    · exact executed_of_enter h (.arm hchosen.1) rfl
  | breakLoop =>
    simp only [dispatch] at h
    split at h
    · cases h
      exact .unwound (.inl rfl)
    · cases h
      exact .done
  | continueLoop =>
    simp only [dispatch] at h
    split at h
    · cases h
      exact .unwound (.inr rfl)
    · cases h
      exact .done
  | define name body =>
    cases h
    exact .defined rfl
  | call name =>
    simp only [dispatch] at h
    split at h
    · rename_i q hq
      rw [control_of_enter h]
      exact .entered (.call hq) rfl
    · cases h
      exact .done
  | segment name body =>
    simp only [dispatch] at h
    split at h
    · rename_i n hn
      cases h
      have hcontrol : (n.withStack n.stack).control = n.control := rfl
      rw [hcontrol, control_of_enter hn]
      exact .entered (.segment name body) rfl
    · cases h
  | _ =>
    cases h
    exact .done

/-- What a turn does to the control. -/
inductive Turned (settings : EngineSettings) (m : Machine) (top : Activation)
    (below : List Activation) : Control → Prop
  | executed {s : Statement} {c : Control} (hs : top.block[top.index]? = some s)
      (h : Executed settings (m.fetch top below) (top.index :: top.site) s c) :
      Turned settings m top below c
  | left (hend : top.block[top.index]? = none) (hkind : top.isLoop = false) :
      Turned settings m top below ⟨below, m.counters, m.sequences⟩
  | passed {site : Site} {passes : PassCount} {again : Bool}
      (hend : top.block[top.index]? = none) (hkind : top.kind = .loop site passes)
      (hagain : again = passes.total.all (m.counter site + 1 < ·)) :
      Turned settings m top below
        ⟨if again then { top with index := 0 } :: below else below,
          Assoc.assign site (m.counter site + 1) m.counters, m.sequences⟩

theorem turned_of_finishBlock (hend : top.block[top.index]? = none)
    (h : m.finishBlock settings top below = .running m') :
    Turned settings m top below m'.control := by
  unfold finishBlock at h
  cases hkind : top.kind with
  | block =>
    simp only [hkind] at h
    cases h
    exact .left hend (by simp only [Activation.isLoop, hkind])
  | segment name start =>
    simp only [hkind] at h
    cases h
    exact .left hend (by simp only [Activation.isLoop, hkind])
  | loop site passes =>
    simp only [hkind, finishPass] at h
    cases passes with
    | short total =>
      cases h
      rw [control_nextPass]
      exact .passed hend hkind rfl
    | long total =>
      simp only at h
      split at h
      · cases h
      · cases h
        have hcounted := control_countPass settings
          { m with counters := Assoc.assign site (m.counter site + 1) m.counters }
        simp only [control, Control.mk.injEq] at hcounted
        rw [control_nextPass, hcounted.2.1, hcounted.2.2]
        exact .passed hend hkind rfl

theorem turned_of_turn (h : m.turn settings top below = .running m') :
    Turned settings m top below m'.control := by
  cases hs : top.block[top.index]? with
  | none =>
    simp only [turn, hs] at h
    exact turned_of_finishBlock hs h
  | some s =>
    rw [turn_of_statement hs] at h
    obtain ⟨n, hn, hcontrol⟩ := control_of_follow h
    rw [hcontrol]
    exact .executed hs (executed_of_dispatch hn)

theorem turned_of_advance (h : m.advance settings limit = .running m') :
    ∃ top below, m.stack = top :: below ∧ Turned settings m top below m'.control := by
  obtain ⟨top, below, hstack, -, -, hturn⟩ := turn_of_advance h
  exact ⟨top, below, hstack, turned_of_turn hturn⟩

/-! ### Unwinding -/

variable {resume : Activation → List Activation → List Activation}

theorem unwindTo_append (hresume : resume = leaveLoop ∨ resume = endPass)
    (above : List Activation) {a : Activation} (ha : a.isLoop = true) (below : List Activation)
    (r : Recorder) :
    (unwindTo resume (above ++ a :: below) r).1 =
      if above.any Activation.isLoop then (unwindTo resume above r).1 ++ a :: below
      else resume a below := by
  induction above generalizing r with
  | nil => simp [unwindTo, ha]
  | cons b above ih =>
    by_cases hb : b.isLoop = true
    · rcases hresume with rfl | rfl <;> simp [unwindTo, hb, leaveLoop, endPass]
    · simp [unwindTo, hb, ih]

/-- What is left after unwinding was there before; only indices may be different. -/
theorem mem_unwindTo (hresume : resume = leaveLoop ∨ resume = endPass) {stack : List Activation}
    {r : Recorder} {a : Activation} (ha : a ∈ (unwindTo resume stack r).1) :
    ∃ b ∈ stack, a.block = b.block ∧ a.kind = b.kind := by
  induction stack generalizing r with
  | nil => simp [unwindTo] at ha
  | cons b below ih =>
    rw [unwindTo] at ha
    split at ha
    · rcases hresume with rfl | rfl
      · exact ⟨a, List.mem_cons_of_mem b ha, rfl, rfl⟩
      · rcases List.mem_cons.mp ha with rfl | ha
        · exact ⟨b, List.mem_cons_self, rfl, rfl⟩
        · exact ⟨a, List.mem_cons_of_mem b ha, rfl, rfl⟩
    · obtain ⟨c, hc, hsame⟩ := ih ha
      exact ⟨c, List.mem_cons_of_mem b hc, hsame⟩

end Machine
end Choreography
