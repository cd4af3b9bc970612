import Choreography.Proofs.Findings
import Choreography.Proofs.StackMoves
import Choreography.Proofs.StructuredRun

/-! # Passes of loops

How many passes an activation of a loop makes before it is left because they are done. The counter
of the passes belongs to the statement, so all activations of one loop share it, and each of them
starts it anew. An activation makes all its passes if no other one of the same loop begins inside
it. If one does, then what the last of them leaves on the counter takes the place of the passes that
were made before. -/
namespace Choreography
namespace Machine

variable {settings : EngineSettings} {limit : Nat}

/-- The machines that a run passes on its way from one to another one, which is not among them. -/
inductive Path (settings : EngineSettings) (limit : Nat) : Machine → List Machine → Machine → Prop
  | nil (m : Machine) : Path settings limit m [] m
  | cons {m next m' : Machine} {ms : List Machine} (h : m.advance settings limit = .running next)
      (rest : Path settings limit next ms m') : Path settings limit m (m :: ms) m'

theorem Path.split {m m' : Machine} {first second : List Machine}
    (h : Path settings limit m (first ++ second) m') :
    ∃ middle, Path settings limit m first middle ∧ Path settings limit middle second m' := by
  induction first generalizing m with
  | nil => exact ⟨m, .nil m, h⟩
  | cons x xs ih =>
    cases h with
    | cons hstep hrest =>
      obtain ⟨middle, hfirst, hsecond⟩ := ih hrest
      exact ⟨middle, .cons hstep hfirst, hsecond⟩

theorem Path.reaches {m m' : Machine} {ms : List Machine} (h : Path settings limit m ms m') :
    Reaches settings limit m m' := by
  induction h with
  | nil => exact .refl
  | cons hstep _ ih => exact .head hstep ih

def entered? (m : Machine) : Option (Site × Option Int) :=
  match m.stack with
  | [] => none
  | top :: _ =>
      match top.block[top.index]? with
      | some (.loop count _) =>
          (total? m.recorder.env count).map fun total => (top.index :: top.site, total)
      | _ => none

def enters (m : Machine) (site : Site) : Bool := m.entered?.any (·.1 == site)

def ended? (m : Machine) : Option Site :=
  match m.stack with
  | [] => none
  | top :: _ =>
      match top.block[top.index]?, top.kind with
      | none, .loop site _ => some site
      | _, _ => none

def startsPass (depth : Nat) (m : Machine) : Bool :=
  match m.stack with
  | [] => false
  | top :: below => below.length == depth && top.index == 0

/-- Above a depth of the stack, a pass of the loop at a site ends with the next turn. -/
def endsAbove (site : Site) (depth : Nat) (m : Machine) : Bool :=
  m.ended? == some site && depth + 1 < m.stack.length

def passesAt (depth : Nat) (ms : List Machine) : Nat := ms.countP (startsPass depth)

def endedAbove (site : Site) (depth : Nat) (ms : List Machine) : Nat :=
  ms.countP (endsAbove site depth)

/-- An activation of the loop at a site, which is to make `n` passes and is left because they are
done: the next turn of `entry` enters the loop, `ms` are the machines while it is open, and the last
of them leaves it at the end of a pass. -/
structure Exhausts (settings : EngineSettings) (limit : Nat) (entry : Machine) (site : Site)
    (n : Int) (ms : List Machine) (exit : Machine) : Prop where
  enters : entry.entered? = some (site, some n)
  path : Path settings limit entry (entry :: ms) exit
  stays : ∀ m ∈ ms, entry.stack.length < m.stack.length
  leaves : exit.stack.length = entry.stack.length
  done : ms.getLast?.any (·.ended?.isSome) = true

variable {m m' : Machine} {site : Site} {top : Activation} {rest : List Activation}

theorem not_ended_of_enters (h : m.enters site = true) : m.ended? = none := by
  unfold enters entered? at h
  unfold ended?
  split
  · rfl
  · rename_i hstack
    simp only [hstack] at h
    split
    · rename_i hend _
      simp [hend] at h
    · rfl

theorem entered_of_loop {count : LoopCount} {body : Block} {total : Option Int}
    (hstack : m.stack = top :: rest) (hs : top.block[top.index]? = some (.loop count body))
    (htotal : total? m.recorder.env count = some total) :
    m.entered? = some (top.index :: top.site, total) := by
  simp [entered?, hstack, hs, htotal]

theorem not_entered_of_end (hstack : m.stack = top :: rest)
    (hend : top.block[top.index]? = none) : m.entered? = none := by
  simp [entered?, hstack, hend]

theorem not_ended_of_statement {s : Statement} (hstack : m.stack = top :: rest)
    (hs : top.block[top.index]? = some s) : m.ended? = none := by
  simp [ended?, hstack, hs]

theorem ended_of_end {passes : PassCount} (hstack : m.stack = top :: rest)
    (hend : top.block[top.index]? = none) (hkind : top.kind = .loop site passes) :
    m.ended? = some site := by
  simp [ended?, hstack, hend, hkind]

theorem not_ended_of_left (hstack : m.stack = top :: rest) (hkind : top.isLoop = false) :
    m.ended? = none := by
  unfold Activation.isLoop at hkind
  simp only [ended?, hstack]
  split
  · rename_i h
    simp [h] at hkind
  · rfl

/-- A turn that enters a loop puts its body on the stack and starts its counter anew. -/
theorem control_of_entered {total : Option Int} (hentered : m.entered? = some (site, total))
    (h : m.advance settings limit = .running m') :
    ∃ top rest body, m.stack = top :: rest ∧ top.index < top.block.length ∧
      m'.control = ⟨⟨site, body, 0, .loop site (passCount settings total)⟩ ::
        { top with index := top.index + 1 } :: rest,
        Assoc.assign site 0 m.counters, m.sequences⟩ := by
  obtain ⟨top, rest, hstack, -, -, hturn⟩ := turn_of_advance h
  simp only [entered?, hstack] at hentered
  split at hentered
  · rename_i count body hs
    obtain ⟨found, hfound, hsame⟩ := Option.map_eq_some_iff.mp hentered
    cases hsame
    obtain ⟨n, hn, hcontrol⟩ := control_of_follow ((turn_of_statement hs).symm.trans hturn)
    have htotal : total? (m.fetch top rest).recorder.env count = some total := hfound
    simp only [dispatch, htotal] at hn
    refine ⟨top, rest, body, hstack, (List.getElem?_eq_some_iff.mp hs).1, ?_⟩
    rw [hcontrol, control_of_enterLoop hn]
    rfl
  · cases hentered

/-! ### One turn under an open loop -/

variable {a : Activation} {below above : List Activation} {i : Nat} {passes : PassCount}

/-- The open loop `a`, at some index, stands right above `below`. What is above it was entered by a
statement of its block. -/
structure Under (a : Activation) (below stack above : List Activation) (i : Nat) : Prop where
  eq : stack = above ++ { a with index := i } :: below
  le : i ≤ a.block.length
  begun : above ≠ [] → 0 < i

def Free (site : Site) (stack : List Activation) : Prop :=
  ∀ b ∈ stack, ∀ passes, b.kind ≠ .loop site passes

theorem Free.nil (site : Site) : Free site [] := fun _ hb => absurd hb List.not_mem_nil

theorem startsPass_of_under (h : Under a below m.stack above i) :
    startsPass below.length m = true ↔ i = 0 := by
  have hbegun := h.begun
  simp only [startsPass, h.eq]
  cases above with
  | nil => simp
  | cons b above =>
    have hpos := hbegun (List.cons_ne_nil b above)
    simp only [List.cons_append, List.length_append, List.length_cons, Bool.and_eq_true,
      beq_iff_eq]
    omega

theorem endsAbove_of_under (site : Site) (h : Under a below m.stack above i) :
    endsAbove site below.length m = true ↔ m.ended? = some site ∧ above ≠ [] := by
  have hlength := congrArg List.length h.eq
  simp only [List.length_append, List.length_cons] at hlength
  rw [endsAbove, Bool.and_eq_true, beq_iff_eq, decide_eq_true_iff, hlength]
  refine and_congr_right fun _ => ?_
  rw [ne_eq, ← List.length_eq_zero_iff]
  omega

/-- A statement that is taken off is one above the open loop or one of its body. -/
theorem under_fetch (site : Site) (h : Under a below (top :: rest) above i)
    (hindex : top.index < top.block.length) :
    ∃ above' i', 0 < i' ∧ Under a below ({ top with index := top.index + 1 } :: rest) above' i' ∧
      (Free site above → Free site above') := by
  obtain ⟨heq, hle, hbegun⟩ := h
  cases above with
  | nil =>
    obtain ⟨rfl, rfl⟩ := List.cons.inj heq
    exact ⟨[], i + 1, Nat.succ_pos i, ⟨rfl, hindex, fun h => absurd rfl h⟩, id⟩
  | cons b above =>
    obtain ⟨rfl, rfl⟩ := List.cons.inj heq
    have hpos := hbegun (List.cons_ne_nil top above)
    refine ⟨{ top with index := top.index + 1 } :: above, i, hpos, ⟨rfl, hle, fun _ => hpos⟩,
      fun hfree => ?_⟩
    obtain ⟨htop, habove⟩ := List.forall_mem_cons.mp hfree
    exact List.forall_mem_cons.mpr ⟨htop, habove⟩

theorem Under.push (h : Under a below m.stack above i) (hi : 0 < i) (b : Activation) :
    Under a below (b :: m.stack) (b :: above) i :=
  ⟨by rw [h.eq]; rfl, h.le, fun _ => hi⟩

theorem free_of_not_loop {b : Activation} (hb : b.isLoop = false) (passes : PassCount) :
    b.kind ≠ .loop site passes := by
  intro hkind
  simp [Activation.isLoop, hkind] at hb

/-- Unwinding leaves the open loop where it is, unless it leaves it. -/
theorem Under.unwind {resume : Activation → List Activation → List Activation}
    (h : Under a below m.stack above i) (hi : 0 < i) (ha : a.isLoop = true)
    (hresume : resume = leaveLoop ∨ resume = endPass)
    (hstays : below.length < (unwindTo resume m.stack m.recorder).1.length) :
    ∃ above' i', 0 < i' ∧ Under a below (unwindTo resume m.stack m.recorder).1 above' i' ∧
      (Free site above → Free site above') := by
  have hunwound := unwindTo_append hresume above (a := { a with index := i }) ha below m.recorder
  rw [← h.eq] at hunwound
  rw [hunwound] at hstays ⊢
  split
  · refine ⟨_, i, hi, ⟨rfl, h.le, fun _ => hi⟩, fun hfree b hb => ?_⟩
    obtain ⟨c, hc, -, hkind⟩ := mem_unwindTo hresume hb
    rw [hkind]
    exact hfree c hc
  · rename_i hplain
    rw [if_neg hplain] at hstays
    rcases hresume with rfl | rfl
    · exact absurd hstays (Nat.lt_irrefl _)
    · have hpos : 0 < a.block.length := Nat.lt_of_lt_of_le hi h.le
      exact ⟨[], a.block.length, hpos, ⟨rfl, Nat.le_refl _, fun h => absurd rfl h⟩,
        fun _ => .nil site⟩

/-- A statement that enters no loop leaves the counters alone and keeps what is open under them. -/
theorem under_of_executed (site : Site) {inner : Site} {s : Statement} {c : Control}
    (h : Under a below m.stack above i) (hi : 0 < i) (ha : a.isLoop = true)
    (hs : ∀ count body, s = .loop count body → total? m.recorder.env count = none)
    (hexecuted : Executed settings m inner s c) (hstays : below.length < c.stack.length) :
    c.counters = m.counters ∧ ∃ above' i', 0 < i' ∧ Under a below c.stack above' i' ∧
      (Free site above → Free site above') := by
  cases hexecuted with
  | done => exact ⟨rfl, above, i, hi, h, id⟩
  | defined => exact ⟨rfl, above, i, hi, h, id⟩
  | entered _ hkind =>
    exact ⟨rfl, _, i, hi, h.push hi _,
      fun hfree => List.forall_mem_cons.mpr ⟨free_of_not_loop hkind, hfree⟩⟩
  | looped hloop htotal =>
    have hnone := hs _ _ hloop
    rw [hnone] at htotal
    cases htotal
  | unwound hresume => exact ⟨rfl, h.unwind hi ha hresume hstays⟩

/-- How the run goes on under an open loop that is to make `n` passes: the loop starts its next
pass, or its passes stay as they are while the counter may be changed from above. -/
inductive GoesOn (a : Activation) (below : List Activation) (site : Site) (n : Int) (m : Machine)
    (above : List Activation) (m' : Machine) : Prop
  | again (habove : above = []) (henters : m.enters site = false)
      (hcount : m.counter site + 1 < n) (hunder : Under a below m'.stack [] 0)
      (hcounter : m'.counter site = m.counter site + 1)
  | inside {above' : List Activation} {i' : Nat} (hpos : 0 < i')
      (hunder : Under a below m'.stack above' i')
      (hentered : m.enters site = true → m'.counter site = 0)
      (hcounter : m.enters site = false →
        m'.counter site = m.counter site + if endsAbove site below.length m then 1 else 0)
      (hfree : m.enters site = false → Free site above → Free site above')

theorem counter_of_control (h : m'.control.counters = m.counters) (site : Site) :
    m'.counter site = m.counter site := by
  have hcounters : m'.counters = m.counters := h
  rw [counter, counter, hcounters]

theorem counter_of_assign {other : Site} {value : Int}
    (h : m'.control.counters = Assoc.assign other value m.counters) (site : Site) :
    m'.counter site = if other = site then value else m.counter site := by
  have hcounters : m'.counters = Assoc.assign other value m.counters := h
  rw [counter, counter, hcounters]
  split
  · rename_i heq
    rw [heq, Assoc.find?_assign_self]
    rfl
  · rename_i hne
    rw [Assoc.find?_assign_ne _ _ (Ne.symm hne)]

theorem endsAbove_of_not_ended (h : m.ended? = none) (site : Site) (depth : Nat) :
    endsAbove site depth m = false := by
  simp [endsAbove, h]

theorem GoesOn.plain {n : Int} {above' : List Activation} {i' : Nat} (hpos : 0 < i')
    (hunder : Under a below m'.stack above' i') (hentered : m.entered? = none)
    (hended : m.ended? = none) (hcounters : m'.control.counters = m.counters)
    (hfree : Free site above → Free site above') : GoesOn a below site n m above m' := by
  refine .inside hpos hunder (fun henters => ?_) (fun _ => ?_) fun _ => hfree
  · simp [enters, hentered] at henters
  · rw [counter_of_control hcounters, endsAbove_of_not_ended hended]
    simp

theorem goesOn_of_entered {n : Int} {total : Option Int} {inner : Site}
    (h : Under a below m.stack above i) (hentered : m.entered? = some (inner, total))
    (hadvance : m.advance settings limit = .running m') : GoesOn a below site n m above m' := by
  obtain ⟨top, rest, body, hstack, hindex, hcontrol⟩ := control_of_entered hentered hadvance
  have hended := not_ended_of_statement hstack (List.getElem?_eq_getElem hindex)
  have henters : m.enters site = true ↔ inner = site := by simp [enters, hentered]
  have hcounter := counter_of_assign (congrArg Control.counters hcontrol) site
  have hpushed : m'.stack = _ := congrArg Control.stack hcontrol
  rw [hstack] at h
  obtain ⟨above', i', hpos, hunder, hfree⟩ := under_fetch site h hindex
  have hunder' : Under a below m'.stack
      (⟨inner, body, 0, .loop inner (passCount settings total)⟩ :: above') i' :=
    ⟨by rw [hpushed, hunder.eq]; rfl, hunder.le, fun _ => hpos⟩
  by_cases hinner : inner = site
  · rw [if_pos hinner] at hcounter
    have hinside := henters.mpr hinner
    exact .inside hpos hunder' (fun _ => hcounter) (fun hout => by simp [hinside] at hout)
      fun hout => by simp [hinside] at hout
  · rw [if_neg hinner] at hcounter
    refine .inside hpos hunder' (by simp [henters, hinner]) (fun _ => ?_) fun _ hfree' => ?_
    · rw [hcounter, endsAbove_of_not_ended hended]
      simp
    · have hother : ∀ passes, ActivationKind.loop inner (passCount settings total) ≠
          .loop site passes := fun passes hkind => hinner (ActivationKind.loop.inj hkind).1
      exact List.forall_mem_cons.mpr ⟨hother, hfree hfree'⟩

theorem goesOn_of_executed {n : Int} {s : Statement} (hstack : m.stack = top :: rest)
    (h : Under a below m.stack above i) (ha : a.isLoop = true) (hentered : m.entered? = none)
    (hs : top.block[top.index]? = some s)
    (hexecuted : Executed settings (m.fetch top rest) (top.index :: top.site) s m'.control)
    (hstays : below.length < m'.stack.length) : GoesOn a below site n m above m' := by
  rw [hstack] at h
  obtain ⟨above₁, i₁, hpos, hunder, hfree⟩ :=
    under_fetch site h (List.getElem?_eq_some_iff.mp hs).1
  have hplain : ∀ count body, s = .loop count body →
      total? (m.fetch top rest).recorder.env count = none := by
    rintro count body rfl
    cases htotal : total? m.recorder.env count with
    | none => exact htotal
    | some total =>
      rw [entered_of_loop hstack hs htotal] at hentered
      cases hentered
  obtain ⟨hcounters, above', i', hpos', hunder', hfree'⟩ :=
    under_of_executed site (m := m.fetch top rest) hunder hpos ha hplain hexecuted hstays
  exact .plain hpos' hunder' hentered (not_ended_of_statement hstack hs) hcounters
    (hfree' ∘ hfree)

theorem goesOn_of_left {n : Int} (hstack : m.stack = top :: rest)
    (h : Under a below m.stack above i) (ha : a.isLoop = true)
    (hend : top.block[top.index]? = none) (hkind : top.isLoop = false)
    (hleft : m'.control = ⟨rest, m.counters, m.sequences⟩) : GoesOn a below site n m above m' := by
  have hrest : m'.stack = rest := congrArg Control.stack hleft
  have heq := hstack.symm.trans h.eq
  cases above with
  | nil =>
    obtain ⟨rfl, -⟩ := List.cons.inj heq
    have htop : a.isLoop = false := hkind
    rw [ha] at htop
    cases htop
  | cons b above =>
    obtain ⟨rfl, hbelow⟩ := List.cons.inj heq
    have hpos := h.begun (List.cons_ne_nil top above)
    exact .plain hpos ⟨hrest.trans hbelow, h.le, fun _ => hpos⟩ (not_entered_of_end hstack hend)
      (not_ended_of_left hstack hkind) (congrArg Control.counters hleft)
      fun hfree => (List.forall_mem_cons.mp hfree).2

theorem goesOn_of_passed {n : Int} {inner : Site} {counted : PassCount} {again : Bool}
    (hstack : m.stack = top :: rest) (h : Under a below m.stack above i)
    (hkind : a.kind = .loop site passes) (htotal : passes.total = some n)
    (hend : top.block[top.index]? = none) (htop : top.kind = .loop inner counted)
    (hagain : again = counted.total.all (m.counter inner + 1 < ·))
    (hpassed : m'.control = ⟨if again then { top with index := 0 } :: rest else rest,
      Assoc.assign inner (m.counter inner + 1) m.counters, m.sequences⟩)
    (hstays : below.length < m'.stack.length) : GoesOn a below site n m above m' := by
  have hgone : m'.stack = if again then { top with index := 0 } :: rest else rest :=
    congrArg Control.stack hpassed
  have hcounter := counter_of_assign (congrArg Control.counters hpassed) site
  have henters : m.enters site = false := by simp [enters, not_entered_of_end hstack hend]
  have hends := endsAbove_of_under site h
  rw [ended_of_end hstack hend htop] at hends
  have heq := hstack.symm.trans h.eq
  cases above with
  | nil =>
    -- The pass is one of the open loop itself, which stays open only for a next pass.
    obtain ⟨rfl, rfl⟩ := List.cons.inj heq
    obtain ⟨rfl, rfl⟩ := ActivationKind.loop.inj (htop.symm.trans hkind)
    simp only [htotal, Option.all_some] at hagain
    cases again with
    | false =>
      rw [hgone] at hstays
      exact absurd hstays (Nat.lt_irrefl _)
    | true =>
      rw [if_pos rfl] at hcounter
      exact .again rfl henters (of_decide_eq_true hagain.symm)
        ⟨hgone, Nat.zero_le _, fun h => absurd rfl h⟩ hcounter
  | cons b above =>
    -- The pass is one of a loop above, maybe of another activation of the same loop.
    obtain ⟨rfl, rfl⟩ := List.cons.inj heq
    have hpos := h.begun (List.cons_ne_nil top above)
    have hsame : m'.counter site =
        m.counter site + if endsAbove site below.length m then 1 else 0 := by
      rw [hcounter]
      by_cases hinner : inner = site
      · rw [if_pos hinner, if_pos (hends.mpr ⟨congrArg some hinner, List.cons_ne_nil _ _⟩), hinner]
      · have hother : ¬ endsAbove site below.length m = true :=
          fun hends' => hinner (Option.some.inj (hends.mp hends').1)
        rw [if_neg hinner, if_neg hother, Int.add_zero]
    cases again with
    | false =>
      exact .inside hpos ⟨hgone, h.le, fun _ => hpos⟩ (by simp [henters]) (fun _ => hsame)
        fun _ hfree => (List.forall_mem_cons.mp hfree).2
    | true =>
      have hunder : Under a below m'.stack ({ top with index := 0 } :: above) i :=
        ⟨hgone, h.le, fun _ => hpos⟩
      refine .inside hpos hunder (by simp [henters]) (fun _ => hsame) fun _ hfree => ?_
      obtain ⟨htop', habove⟩ := List.forall_mem_cons.mp hfree
      exact List.forall_mem_cons.mpr ⟨htop', habove⟩

theorem goesOn_of_advance {n : Int} (h : Under a below m.stack above i)
    (hkind : a.kind = .loop site passes) (htotal : passes.total = some n)
    (hadvance : m.advance settings limit = .running m')
    (hstays : below.length < m'.stack.length) : GoesOn a below site n m above m' := by
  have ha : a.isLoop = true := by simp [Activation.isLoop, hkind]
  cases hentered : m.entered? with
  | some e => exact goesOn_of_entered h hentered hadvance
  | none =>
    obtain ⟨top, rest, hstack, hturned⟩ := turned_of_advance hadvance
    generalize hcontrol : m'.control = c at hturned
    cases hturned with
    | executed hs hexecuted =>
      exact goesOn_of_executed hstack h ha hentered hs (hcontrol ▸ hexecuted) hstays
    | left hend hblock => exact goesOn_of_left hstack h ha hend hblock hcontrol
    | passed hend hloop hagain =>
      exact goesOn_of_passed hstack h hkind htotal hend hloop hagain hcontrol hstays

/-- A turn that leaves the open loop at the end of a pass has found enough passes counted. -/
theorem counted_of_exit {n : Int} (h : Under a below m.stack above i)
    (hkind : a.kind = .loop site passes) (htotal : passes.total = some n)
    (hadvance : m.advance settings limit = .running m') (hended : m.ended?.isSome = true)
    (hexit : m'.stack.length = below.length) : above = [] ∧ n ≤ m.counter site + 1 := by
  obtain ⟨top, rest, hstack, hturned⟩ := turned_of_advance hadvance
  generalize hcontrol : m'.control = c at hturned
  cases hturned with
  | executed hs _ =>
    rw [not_ended_of_statement hstack hs] at hended
    cases hended
  | left _ hblock =>
    rw [not_ended_of_left hstack hblock] at hended
    cases hended
  | @passed inner counted again _ hloop hagain =>
    have hgone : m'.stack = if again then { top with index := 0 } :: rest else rest :=
      congrArg Control.stack hcontrol
    have heq := hstack.symm.trans h.eq
    cases above with
    | nil =>
      obtain ⟨rfl, rfl⟩ := List.cons.inj heq
      obtain ⟨rfl, rfl⟩ := ActivationKind.loop.inj (hloop.symm.trans hkind)
      simp only [htotal, Option.all_some] at hagain
      refine ⟨rfl, Int.not_lt.mp fun hlt => ?_⟩
      rw [hagain, if_pos (decide_eq_true hlt)] at hgone
      rw [hgone, List.length_cons] at hexit
      omega
    | cons b above =>
      obtain ⟨rfl, rfl⟩ := List.cons.inj heq
      rw [hgone] at hexit
      split at hexit <;> simp at hexit <;> omega

/-! ### Runs under an open loop -/

variable {ms : List Machine} {exit : Machine} {n : Int}

theorem Path.nil_or_mem (h : Path settings limit m ms m') : ms = [] ∧ m = m' ∨ m ∈ ms := by
  cases h with
  | nil => exact .inl ⟨rfl, rfl⟩
  | cons => exact .inr List.mem_cons_self

theorem under_path (h : Under a below m.stack above i) (hkind : a.kind = .loop site passes)
    (htotal : passes.total = some n) (path : Path settings limit m ms m')
    (hstays : ∀ x ∈ ms, below.length < x.stack.length) (hend : below.length < m'.stack.length) :
    ∃ above' i', Under a below m'.stack above' i' := by
  induction path generalizing above i with
  | nil => exact ⟨above, i, h⟩
  | @cons m next m' ms hadvance rest ih =>
    have hnext : below.length < next.stack.length := by
      rcases rest.nil_or_mem with ⟨-, rfl⟩ | hmem
      · exact hend
      · exact hstays next (List.mem_cons_of_mem m hmem)
    obtain ⟨-, hrest⟩ := List.forall_mem_cons.mp hstays
    cases goesOn_of_advance h hkind htotal hadvance hnext with
    | again _ _ _ hunder => exact ih hunder hrest hend
    | inside _ hunder => exact ih hunder hrest hend

theorem endsAbove_of_free (h : Under a below m.stack above i) (hfree : Free site above) :
    endsAbove site below.length m = false := by
  rw [← Bool.not_eq_true, endsAbove_of_under site h]
  rintro ⟨hended, habove⟩
  obtain ⟨b, above, rfl⟩ := List.exists_cons_of_ne_nil habove
  have hstack : m.stack = b :: (above ++ { a with index := i } :: below) := h.eq
  simp only [ended?, hstack] at hended
  split at hended
  · rename_i passes _ hkind
    cases hended
    exact hfree b List.mem_cons_self passes hkind
  · cases hended

/-- If no activation of the loop is above and none begins, then none ends a pass above. -/
theorem endedAbove_of_free (h : Under a below m.stack above i) (hkind : a.kind = .loop site passes)
    (htotal : passes.total = some n) (path : Path settings limit m ms exit)
    (hstays : ∀ x ∈ ms, below.length < x.stack.length)
    (hplain : ∀ x ∈ ms, x.enters site = false) (hfree : Free site above) :
    endedAbove site below.length ms = 0 := by
  induction path generalizing above i with
  | nil => rfl
  | @cons m next exit ms hadvance rest ih =>
    have hfirst := endsAbove_of_free h hfree
    have hrest : endedAbove site below.length ms = 0 := by
      rcases rest.nil_or_mem with ⟨rfl, -⟩ | hmem
      · rfl
      · obtain ⟨-, hstays⟩ := List.forall_mem_cons.mp hstays
        obtain ⟨hnot, hplain⟩ := List.forall_mem_cons.mp hplain
        cases goesOn_of_advance h hkind htotal hadvance (hstays next hmem) with
        | again _ _ _ hunder => exact ih hunder hstays hplain (.nil site)
        | inside _ hunder _ _ hfree' => exact ih hunder hstays hplain (hfree' hnot hfree)
    simpa [endedAbove, List.countP_cons, hfirst] using hrest

theorem passesAt_cons (h : Under a below m.stack above i) :
    passesAt below.length (m :: ms) = (if i = 0 then 1 else 0) + passesAt below.length ms := by
  rw [passesAt, List.countP_cons, Nat.add_comm, passesAt]
  by_cases hi : i = 0
  · rw [if_pos hi, if_pos ((startsPass_of_under h).mpr hi)]
  · rw [if_neg hi, if_neg (hi ∘ (startsPass_of_under h).mp)]

/-- While no other activation of the loop begins, the passes still to come are what the counter
leaves of the count, less those that end above. -/
theorem passesAt_path (h : Under a below m.stack above i) (hkind : a.kind = .loop site passes)
    (htotal : passes.total = some n) (path : Path settings limit m ms exit)
    (hstays : ∀ x ∈ ms, below.length < x.stack.length) (hexit : exit.stack.length = below.length)
    (hdone : ms.getLast?.any (·.ended?.isSome) = true)
    (hplain : ∀ x ∈ ms, x.enters site = false) :
    passesAt below.length ms = (if i = 0 then 1 else 0) +
      (n - (m.counter site + endedAbove site below.length ms + 1)).toNat := by
  induction path generalizing above i with
  | nil => simp at hdone
  | @cons m next exit ms hadvance rest ih =>
    rw [passesAt_cons h]
    rcases rest.nil_or_mem with ⟨rfl, rfl⟩ | hmem
    · have hended : m.ended?.isSome = true := hdone
      obtain ⟨rfl, hcounted⟩ := counted_of_exit h hkind htotal hadvance hended hexit
      have hnone : (n - (m.counter site + endedAbove site below.length [m] + 1)).toNat = 0 := by
        omega
      rw [hnone]
      rfl
    · obtain ⟨-, hstays⟩ := List.forall_mem_cons.mp hstays
      obtain ⟨hnot, hplain⟩ := List.forall_mem_cons.mp hplain
      rw [List.getLast?_cons_of_ne_nil (List.ne_nil_of_mem hmem)] at hdone
      have hended' : endedAbove site below.length (m :: ms) =
          endedAbove site below.length ms + if endsAbove site below.length m then 1 else 0 :=
        List.countP_cons ..
      cases goesOn_of_advance h hkind htotal hadvance (hstays next hmem) with
      | again habove _ hcount hunder hcounter =>
        subst habove
        -- Nothing is above, so nothing ends above from here on.
        have hfirst := endsAbove_of_free h (.nil site)
        have hlater := endedAbove_of_free hunder hkind htotal rest hstays hplain (.nil site)
        have hpasses := ih hunder hstays hexit hdone hplain
        simp only [hfirst, Bool.false_eq_true, if_false, hlater] at hended'
        rw [hpasses, if_pos rfl, hended', hlater, hcounter]
        omega
      | inside hpos hunder _ hcounter _ =>
        have hpasses := ih hunder hstays hexit hdone hplain
        have hcounter' := hcounter hnot
        rw [hpasses, if_neg (Nat.ne_of_gt hpos)]
        -- A pass that ends above has moved from the passes to come to the counter.
        cases hends : endsAbove site below.length m with
        | false =>
          simp only [hends, Bool.false_eq_true, if_false] at hcounter' hended'
          omega
        | true =>
          simp only [hends, if_true] at hcounter' hended'
          omega

theorem pos_of_entered (h : m.entered? = some (site, some n)) : 0 < n := by
  unfold entered? at h
  split at h
  · cases h
  · split at h
    · rename_i count _ _
      obtain ⟨total, htotal, hsame⟩ := Option.map_eq_some_iff.mp h
      cases hsame
      cases count with
      | infinite => cases htotal
      | times e =>
        simp only [total?] at htotal
        split at htotal
        · cases htotal
        · cases htotal
          omega
    · cases h

/-- The open loop as it is entered, with nothing above and nothing counted. -/
theorem Exhausts.opened {entry : Machine} (h : Exhausts settings limit entry site n ms exit) :
    ∃ a below first, below.length = entry.stack.length ∧
      a.kind = .loop site (passCount settings (some n)) ∧ Under a below first.stack [] 0 ∧
      first.counter site = 0 ∧ Path settings limit first ms exit := by
  obtain ⟨henters, path, -, -, -⟩ := h
  cases path with
  | @cons _ first _ _ hadvance rest =>
    obtain ⟨top, below, body, hstack, -, hcontrol⟩ := control_of_entered henters hadvance
    have hcounter := counter_of_assign (congrArg Control.counters hcontrol) site
    rw [if_pos rfl] at hcounter
    have hopened : first.stack = _ := congrArg Control.stack hcontrol
    refine ⟨⟨site, body, 0, .loop site (passCount settings (some n))⟩, _, first, ?_, rfl,
      ⟨hopened, Nat.zero_le _, fun hne => absurd rfl hne⟩, hcounter, rest⟩
    rw [hstack, List.length_cons, List.length_cons]

/-- Every machine on the way of an activation has its loop open, and the run goes on from it to the
end of the activation. -/
theorem Exhausts.inside {entry : Machine} {before after : List Machine}
    (h : Exhausts settings limit entry site n (before ++ m :: after) exit) :
    ∃ a below above i next, below.length = entry.stack.length ∧
      a.kind = .loop site (passCount settings (some n)) ∧ Under a below m.stack above i ∧
      Reaches settings limit entry m ∧ m.advance settings limit = .running next ∧
      Path settings limit next after exit := by
  obtain ⟨a, below, first, hdepth, hkind, hunder, -, path⟩ := h.opened
  have hstays := h.stays
  rw [← hdepth] at hstays
  obtain ⟨middle, hbefore, hrest⟩ := path.split
  have hpath : Path settings limit entry ((entry :: before) ++ m :: after) exit := h.path
  obtain ⟨middle', hentry, hrest'⟩ := hpath.split
  cases hrest with
  | @cons _ next _ _ hadvance hafter =>
    cases hrest' with
    | cons =>
      have hbelow := fun x hx => hstays x (List.mem_append_left (m :: after) hx)
      have hm := hstays m (List.mem_append_right before List.mem_cons_self)
      obtain ⟨above, i, hunder'⟩ :=
        under_path hunder hkind (total_passCount settings (some n)) hbefore hbelow hm
      exact ⟨a, below, above, i, next, hdepth, hkind, hunder', hentry.reaches, hadvance, hafter⟩

theorem passesAt_of_plain {entry : Machine} (h : Exhausts settings limit entry site n ms exit)
    (hplain : ∀ m ∈ ms, m.enters site = false) : (passesAt entry.stack.length ms : Int) = n := by
  have hn := pos_of_entered h.enters
  have htotal := total_passCount settings (some n)
  obtain ⟨a, below, first, hdepth, hkind, hunder, hcounter, path⟩ := h.opened
  have hstays := h.stays
  have hexit := h.leaves
  rw [← hdepth] at hstays hexit ⊢
  have hpasses := passesAt_path hunder hkind htotal path hstays hexit h.done hplain
  have hnone := endedAbove_of_free hunder hkind htotal path hstays hplain (.nil site)
  rw [if_pos rfl, hcounter, hnone] at hpasses
  omega

/-- Without recursion no activation of a loop begins inside another one. -/
theorem passes_of_acyclic {p : Program} (hp : p.Acyclic) {entry : Machine}
    (hentry : WellNested p entry) (h : Exhausts settings limit entry site n ms exit) :
    (passesAt entry.stack.length ms : Int) = n := by
  refine passesAt_of_plain h fun m hm => Bool.eq_false_iff.mpr fun henters => ?_
  obtain ⟨before, after, rfl⟩ := List.append_of_mem hm
  obtain ⟨⟨inner, total⟩, hentered, hsite⟩ := (Option.any_eq_true _ _).mp henters
  obtain rfl : inner = site := eq_of_beq hsite
  obtain ⟨a, below, above, i, next, -, hkind, hunder, hreaches, hadvance, -⟩ := h.inside
  obtain ⟨top, rest, body, hstack, hindex, hcontrol⟩ := control_of_entered hentered hadvance
  have hnext : next.stack = _ := congrArg Control.stack hcontrol
  -- The new activation would stand above the open one at one site.
  have hnested := (refines_reaches hp hentry (hreaches.tail hadvance)).1.nested
  rw [hstack] at hunder
  rw [hnext] at hnested
  obtain ⟨above', i', -, hbelow, -⟩ := under_fetch inner hunder hindex
  refine hnested.fresh hp (b := { a with index := i' }) ?_ hkind rfl
  rw [hbelow.eq]
  exact List.mem_append_right _ List.mem_cons_self

/-- If no other activation of the loop begins inside it, an activation makes all its passes. If one
does, then after the last one the loop makes the passes that its count leaves once those that end
above it, and the one that goes on, are taken off. -/
theorem passes_of_exhausted {entry : Machine} (h : Exhausts settings limit entry site n ms exit) :
    ((∀ m ∈ ms, m.enters site = false) → (passesAt entry.stack.length ms : Int) = n) ∧
      ∀ before inner after, ms = before ++ inner :: after → inner.enters site = true →
        (∀ m ∈ after, m.enters site = false) →
        passesAt entry.stack.length ms = passesAt entry.stack.length (before ++ [inner]) +
          (n - (endedAbove site entry.stack.length after + 1)).toNat := by
  refine ⟨passesAt_of_plain h, ?_⟩
  rintro before inner after rfl henters hplain
  have htotal := total_passCount settings (some n)
  obtain ⟨a, below, above, i, next, hdepth, hkind, hunder, -, hadvance, hafter⟩ := h.inside
  have hstays := fun x hx =>
    h.stays x (List.mem_append_right before (List.mem_cons_of_mem inner hx))
  have hexit := h.leaves
  have hdone := h.done
  rw [← hdepth] at hstays hexit ⊢
  rcases hafter.nil_or_mem with ⟨rfl, -⟩ | hmem
  · simp [not_ended_of_enters henters] at hdone
  · have hlast : (before ++ inner :: after).getLast? = after.getLast? := by
      rw [List.getLast?_append_cons, List.getLast?_cons_of_ne_nil (List.ne_nil_of_mem hmem)]
    rw [hlast] at hdone
    cases goesOn_of_advance hunder hkind htotal hadvance (hstays next hmem) with
    | again _ hnot =>
      rw [henters] at hnot
      cases hnot
    | inside hpos hunder' hentered =>
      have hpasses := passesAt_path hunder' hkind htotal hafter hstays hexit hdone hplain
      rw [if_neg (Nat.ne_of_gt hpos), hentered henters] at hpasses
      have hparts : passesAt below.length (before ++ inner :: after) =
          passesAt below.length (before ++ [inner]) + passesAt below.length after := by
        rw [passesAt, passesAt, passesAt, ← List.countP_append, List.append_assoc]
        rfl
      omega

/-- The machines of the next turns, as far as the run goes on, and the machine after them. -/
def walk (settings : EngineSettings) (limit : Nat) : Nat → Machine → List Machine × Machine
  | 0, m => ([], m)
  | k + 1, m =>
      match m.advance settings limit with
      | .running next => ((m :: (walk settings limit k next).1), (walk settings limit k next).2)
      | .stopped _ _ => ([], m)

theorem path_walk (k : Nat) (m : Machine) :
    Path settings limit m (walk settings limit k m).1 (walk settings limit k m).2 := by
  induction k generalizing m with
  | zero => exact .nil m
  | succ k ih =>
    rw [walk]
    split
    · rename_i next hadvance
      exact .cons hadvance (ih next)
    · exact .nil m

theorem walk_add (j k : Nat) (m : Machine) :
    walk settings limit (j + k) m = ((walk settings limit j m).1 ++
      (walk settings limit k (walk settings limit j m).2).1,
      (walk settings limit k (walk settings limit j m).2).2) := by
  induction j generalizing m with
  | zero => rw [Nat.zero_add]; rfl
  | succ j ih =>
    rw [Nat.succ_add, walk, walk]
    split
    · rename_i next hadvance
      rw [ih]
      rfl
    · rename_i m' why hadvance
      cases k with
      | zero => rfl
      | succ k => simp [walk, hadvance]

end Machine

namespace Performance
open Machine

def after (p : Performance) (turns : Nat) : Machine :=
  (walk p.settings (p.limit none) turns (.start p.program p.recorder)).2

def stretch (p : Performance) (skipped turns : Nat) : List Machine :=
  (walk p.settings (p.limit none) turns (p.after skipped)).1

theorem path_stretch (p : Performance) (skipped turns : Nat) :
    Path p.settings (p.limit none) (p.after skipped) (p.stretch skipped turns)
      (p.after (skipped + turns)) := by
  have hafter : p.after (skipped + turns) =
      (walk p.settings (p.limit none) turns (p.after skipped)).2 := by
    rw [after, walk_add]
    rfl
  rw [hafter]
  exact path_walk turns _

/-- Goes one pixel in each of two passes; the first pass calls for the same loop once more. -/
def encore : Performance := playing [
  .define "lap" [.repeated (.int 2) [
    .move (.along .right .one),
    .conditional [.mk (.binary (.comparison .lt) (.variable "widget.x") (.int 2)) [.call "lap"]]
      []]],
  .call "lap"]

/-- The activation that calls for the loop again is left because its passes are done. -/
theorem exhausts_encore : Exhausts encore.settings (encore.limit none) (encore.after 2) [0, 0] 2
    (encore.stretch 3 13) (encore.after 16) where
  enters := by decide +kernel
  path := .cons rfl (encore.path_stretch 3 13)
  stays := by decide +kernel
  leaves := by decide +kernel
  done := by decide +kernel

theorem passes_of_exhausted_encore :
    (passesAt 5 (encore.stretch 7 6) : Int) = 2 ∧
      passesAt 2 (encore.stretch 3 13) =
        passesAt 2 (encore.stretch 3 4) + (2 - (2 + 1) : Int).toNat := by
  have hinner : Exhausts encore.settings (encore.limit none) (encore.after 6) [0, 0] 2
      (encore.stretch 7 6) (encore.after 13) :=
    ⟨by decide +kernel, .cons rfl (encore.path_stretch 7 6), by decide +kernel,
      by decide +kernel, by decide +kernel⟩
  obtain ⟨hall, -⟩ := passes_of_exhausted hinner
  obtain ⟨-, hlast⟩ := passes_of_exhausted exhausts_encore
  refine ⟨hall (by decide +kernel), ?_⟩
  exact hlast (encore.stretch 3 3) (encore.after 6) (encore.stretch 7 9) rfl (by decide +kernel)
    (by decide +kernel)

/-- The first activation ends after one pass of two. -/
theorem pass_lost_to_encore :
    Path encore.settings (encore.limit none) (.start encore.program encore.recorder)
        (encore.stretch 0 2) (encore.after 2) ∧
      Exhausts encore.settings (encore.limit none) (encore.after 2) [0, 0] 2 (encore.stretch 3 13)
        (encore.after 16) ∧
      passesAt (encore.after 2).stack.length (encore.stretch 3 13) = 1 ∧
      (encore.perform none).why = .completed ∧
      (encore.perform none).timeline.frames.map Frame.coords = #[(1, 0), (2, 0), (3, 0)] :=
  ⟨encore.path_stretch 0 2, exhausts_encore, by decide +kernel, by cbv, by cbv⟩

end Performance
end Choreography
