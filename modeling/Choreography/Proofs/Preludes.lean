import Choreography.Proofs.Executions
import Choreography.Proofs.Segments
import Mathlib.Data.List.ModifyLast

/-! # Statements before others

A program whose loops and calls all stand in sequences goes through its text once. The turns that it
takes are the same where more statements follow: the shorter program is done just when the longer
one comes to what follows, and a limit stops one of them as it stops the other. -/
namespace Choreography

def Statement.mayRepeat : Statement → Bool
  | .loop .. => true
  | .call _ => true
  | _ => false

/-- Outside of sequences there are no loops and no calls, so nothing is executed twice. -/
def Program.goesForward (p : Program) : Bool :=
  p.places.all fun place => place.depth != 0 || !place.statement.mayRepeat

def Stop.isLimit : Stop → Bool
  | .stepLimit => true
  | .frameLimit => true
  | .tooDeep => true
  | _ => false

def Activation.prolong (rest : Block) (a : Activation) : Activation :=
  { a with block := a.block ++ rest }

namespace Machine
open Recorder

def prolong (m : Machine) (rest : Block) : Machine :=
  { m with stack := m.stack.modifyLast (Activation.prolong rest) }

variable {settings : EngineSettings} {limit : Nat} {m : Machine} {site : Site} {s : Statement}
  {top : Activation} {below : List Activation} {places : List Place}

/-! ### Longer stacks -/

theorem modifyLast_cons (f : Activation → Activation) (a : Activation) {stack : List Activation}
    (h : stack ≠ []) : (a :: stack).modifyLast f = a :: stack.modifyLast f :=
  List.modifyLast_append_of_right_ne_nil f [a] stack h

theorem length_modifyLast (f : Activation → Activation) (stack : List Activation) :
    (stack.modifyLast f).length = stack.length := by
  rcases List.eq_nil_or_concat' stack with rfl | ⟨above, a, rfl⟩
  · rfl
  · rw [List.modifyLast_concat, List.length_append, List.length_append]
    rfl

theorem any_isLoop_prolong (rest : Block) (stack : List Activation) :
    (stack.modifyLast (Activation.prolong rest)).any Activation.isLoop =
      stack.any Activation.isLoop := by
  rcases List.eq_nil_or_concat' stack with rfl | ⟨above, a, rfl⟩
  · rfl
  · rw [List.modifyLast_concat, List.any_append, List.any_append]
    rfl

theorem activeSegment_prolong (rest : Block) (stack : List Activation) :
    activeSegment (stack.modifyLast (Activation.prolong rest)) = activeSegment stack := by
  rcases List.eq_nil_or_concat' stack with rfl | ⟨above, a, rfl⟩
  · rfl
  · have hopening : opening? (a.prolong rest) = opening? a := rfl
    rw [List.modifyLast_concat, activeSegment_eq, activeSegment_eq, openings, openings,
      List.filterMap_append, List.filterMap_append]
    simp only [List.filterMap_cons, hopening]

/-! ### Turns outside of loops -/

/-- What a statement outside of loops and calls does with any stack on which no loop is open: it
changes what is recorded and defined, or it opens a block as well. -/
inductive Goes (settings : EngineSettings) (places : List Place) (m : Machine) (site : Site)
    (s : Statement) : Prop
  | on (r : Recorder) (sequences : Table Sequence)
      (h : ∀ stack : List Activation, stack.any Activation.isLoop = false →
        Machine.dispatch settings { m with stack := stack } site s =
          .running { m with recorder := r, sequences := sequences, stack := stack })
  | into (r : Recorder) (a : Activation) (hloop : a.isLoop = false)
      (hplaces : Statement.blockPlaces a.site 0 0 a.block ⊆ places)
      (h : ∀ stack : List Activation,
        if settings.maxFrameDepth ≤ stack.length then
          ∃ n, Machine.dispatch settings { m with stack := stack } site s = .stopped n .tooDeep
        else Machine.dispatch settings { m with stack := stack } site s =
          .running { m with recorder := r, stack := a :: stack })

theorem goes_of_places (settings : EngineSettings) (m : Machine) (hs : s.mayRepeat = false)
    (hplaces : s.places site 0 ⊆ places) : Goes settings places m site s := by
  cases heffect : s.effect? site with
  | some f => exact .on (f m.recorder) m.sequences fun stack _ => dispatch_of_effect heffect
  | none =>
    cases s with
    | loop count body => cases hs
    | call name => cases hs
    | define name body =>
      exact .on m.recorder (m.sequences.insert name ⟨site, body⟩) fun stack _ => rfl
    | breakLoop =>
      refine .on (m.recorder.note [.strayBreak]) m.sequences fun stack hstack => ?_
      simp only [dispatch, hstack]
      rfl
    | continueLoop =>
      refine .on (m.recorder.note [.strayContinue]) m.sequences fun stack hstack => ?_
      simp only [dispatch, hstack]
      rfl
    | conditional branches otherwise =>
      obtain ⟨i, arm, heq, hchosen⟩ := chooseBranch_spec m.recorder.env 0 branches otherwise
      rw [Nat.zero_add, Nat.zero_add] at heq
      cases hempty : arm.isEmpty with
      | true =>
        refine .on (m.recorder.note (branchFaults m.recorder.env branches)) m.sequences
          fun stack _ => ?_
        simp only [dispatch, heq, hempty]
        rfl
      | false =>
        refine .into (m.recorder.note (branchFaults m.recorder.env branches))
          ⟨i :: site, arm, 0, .block⟩ rfl
          (List.Subset.trans (Statement.blockPlaces_subset_arm hchosen.1) hplaces)
          fun stack => ?_
        simp only [dispatch, heq, hempty, Bool.false_eq_true, if_false, enter]
        split
        · rename_i hdeep
          exact ⟨_, if_pos hdeep⟩
        · rename_i hdeep
          exact if_neg hdeep
    | segment name body =>
      refine .into (m.recorder.setSegment (some name))
        ⟨site, body, 0, .segment name m.recorder.frames.size⟩ rfl
        (List.Subset.trans (List.subset_cons_self _ _) hplaces) fun stack => ?_
      simp only [dispatch, enter]
      split
      · exact ⟨_, rfl⟩
      · rfl
    | _ => cases heffect

/-! ### Runs of longer programs -/

/-- A machine that is still in the text of a program which goes forward: no loop is open, and no
pass of one has ended. -/
structure Forward (p : Program) (m : Machine) : Prop where
  bottom : ∃ above i, m.stack = above ++ [⟨[], p.statements, i, .block⟩] ∧ i ≤ p.statements.length
  outside : ∀ a ∈ m.stack, a.isLoop = false ∧ Statement.blockPlaces a.site 0 0 a.block ⊆ p.places
  recent : m.recent = []

def Through (p : Program) (m : Machine) : Prop :=
  m.stack = [⟨[], p.statements, p.statements.length, .block⟩]

variable {p : Program} {n : Machine}

theorem prolong_nil (m : Machine) : m.prolong [] = m := by
  obtain ⟨recorder, stack, sequences, counters, recent, steps⟩ := m
  rcases List.eq_nil_or_concat' stack with rfl | ⟨above, a, rfl⟩
  · rfl
  · have hsame : a.prolong [] = a := by rw [Activation.prolong, List.append_nil]
    rw [prolong, List.modifyLast_concat, hsame]

namespace Forward

theorem start (p : Program) (r : Recorder) : Forward p (start p r) where
  bottom := ⟨[], 0, rfl, Nat.zero_le _⟩
  outside a ha := by
    rw [List.mem_singleton.mp ha]
    exact ⟨rfl, List.Subset.refl _⟩
  recent := rfl

theorem any_isLoop (h : Forward p m) : m.stack.any Activation.isLoop = false := by
  rw [List.any_eq_false]
  exact fun a ha => by simp [(h.outside a ha).1]

/-- The next statement stands outside of loops and sequences. -/
theorem next (h : Forward p m) (hstack : m.stack = top :: below)
    (hs : top.block[top.index]? = some s) : s.places (top.index :: top.site) 0 ⊆ p.places := by
  have htop := (h.outside top (by rw [hstack]; exact List.mem_cons_self)).2
  have hplaces : s.places ((0 + top.index) :: top.site) 0 ⊆
      Statement.blockPlaces top.site 0 0 top.block := Statement.places_subset_block 0 hs
  rw [Nat.zero_add] at hplaces
  exact List.Subset.trans hplaces htop

theorem fetch (h : Forward p m) (hstack : m.stack = top :: below)
    (hs : top.block[top.index]? = some s) : Forward p (m.fetch top below) where
  bottom := by
    obtain ⟨above, i, heq, hle⟩ := h.bottom
    rw [hstack] at heq
    cases above with
    | nil =>
      obtain ⟨rfl, rfl⟩ := List.cons.inj heq
      exact ⟨[], i + 1, rfl, (List.getElem?_eq_some_iff.mp hs).1⟩
    | cons a above =>
      obtain ⟨rfl, rfl⟩ := List.cons.inj heq
      exact ⟨{ top with index := top.index + 1 } :: above, i, rfl, hle⟩
  outside := by
    have houtside := h.outside
    rw [hstack] at houtside
    obtain ⟨htop, hbelow⟩ := List.forall_mem_cons.mp houtside
    exact List.forall_mem_cons.mpr ⟨htop, hbelow⟩
  recent := h.recent

theorem of_stack (h : Forward p m) (hstack : n.stack = m.stack) (hrecent : n.recent = m.recent) :
    Forward p n where
  bottom := hstack ▸ h.bottom
  outside := hstack ▸ h.outside
  recent := hrecent.trans h.recent

theorem push (h : Forward p m) {a : Activation} (hloop : a.isLoop = false)
    (hplaces : Statement.blockPlaces a.site 0 0 a.block ⊆ p.places)
    (hstack : n.stack = a :: m.stack) (hrecent : n.recent = m.recent) : Forward p n where
  bottom := by
    obtain ⟨above, i, heq, hle⟩ := h.bottom
    exact ⟨a :: above, i, by rw [hstack, heq]; rfl, hle⟩
  outside := by
    rw [hstack]
    exact List.forall_mem_cons.mpr ⟨⟨hloop, hplaces⟩, h.outside⟩
  recent := hrecent.trans h.recent

/-- Where the program is not through, the block that is left is not the outermost one. -/
theorem leave (h : Forward p m) (hstack : m.stack = top :: below)
    (hend : top.block[top.index]? = none) (hthrough : ¬ Through p m) (hbelow : n.stack = below)
    (hrecent : n.recent = m.recent) : below ≠ [] ∧ Forward p n := by
  obtain ⟨above, i, heq, hle⟩ := h.bottom
  rw [hstack] at heq
  cases above with
  | nil =>
    obtain ⟨rfl, rfl⟩ := List.cons.inj heq
    have hi : i = p.statements.length := Nat.le_antisymm hle (List.getElem?_eq_none_iff.mp hend)
    exact absurd (by rw [Through, hstack, hi]) hthrough
  | cons a above =>
    obtain ⟨rfl, rfl⟩ := List.cons.inj heq
    refine ⟨by simp, ⟨above, i, hbelow, hle⟩, fun b hb => ?_, hrecent.trans h.recent⟩
    rw [hbelow] at hb
    exact h.outside b (by rw [hstack]; exact List.mem_cons_of_mem top hb)

end Forward

theorem prolong_push (m : Machine) (a : Activation) (r : Recorder) (h : m.stack ≠ [])
    (rest : Block) : ({ m with recorder := r, stack := a :: m.stack } : Machine).prolong rest =
      { m with recorder := r, stack := a :: (m.prolong rest).stack } := by
  simp only [prolong, modifyLast_cons _ a h]

/-- The longer program fetches the same statement. -/
theorem fetch_prolong (hstack : m.stack = top :: below) (hs : top.block[top.index]? = some s)
    (rest : Block) :
    ∃ top' below', (m.prolong rest).stack = top' :: below' ∧
      top'.block[top'.index]? = some s ∧ top'.index :: top'.site = top.index :: top.site ∧
      (m.prolong rest).fetch top' below' = (m.fetch top below).prolong rest := by
  by_cases hbelow : below = []
  · subst hbelow
    refine ⟨top.prolong rest, [], by rw [prolong, hstack]; rfl, ?_, rfl, rfl⟩
    exact (List.getElem?_append_left (List.getElem?_eq_some_iff.mp hs).1).trans hs
  · refine ⟨top, below.modifyLast (Activation.prolong rest), ?_, hs, rfl, ?_⟩
    · rw [prolong, hstack, modifyLast_cons _ top hbelow]
    · simp only [prolong, Machine.fetch, modifyLast_cons _ _ hbelow]

/-- What a machine does next does not depend on what follows its program: it goes on, or a limit
stops it. -/
inductive Unaltered (settings : EngineSettings) (limit : Nat) (p : Program) (m : Machine) : Prop
  | on (next : Machine) (hnext : Forward p next)
      (h : ∀ rest, (m.prolong rest).advance settings limit = .running (next.prolong rest))
  | stopped (why : Stop) (hwhy : why.isLimit = true)
      (h : ∀ rest, ∃ n, (m.prolong rest).advance settings limit = .stopped n why)

theorem unaltered_of_statement (hp : p.goesForward = true) (h : Forward p m)
    (hstack : m.stack = top :: below) (hs : top.block[top.index]? = some s)
    (hsteps : m.steps < limit) (hframes : m.recorder.frames.size < limit) :
    Unaltered settings limit p m := by
  have hplaces := h.next hstack hs
  have hrepeat : s.mayRepeat = false := by
    have hplace := List.all_eq_true.mp hp _ (hplaces (Statement.mem_places_self _ 0 s))
    simpa using hplace
  have hfetched := h.fetch hstack hs
  have hadvance : ∀ rest, (m.prolong rest).advance settings limit =
      (((m.fetch top below).prolong rest).dispatch settings (top.index :: top.site) s).follow := by
    intro rest
    obtain ⟨top', below', hstack', hs', hsite, hfetch⟩ := fetch_prolong hstack hs rest
    rw [advance_eq_turn hstack' hsteps hframes, turn_of_statement hs', hsite, hfetch]
  have hprolonged : ∀ rest,
      ((m.fetch top below).prolong rest).stack.any Activation.isLoop = false :=
    fun rest => (any_isLoop_prolong rest _).trans hfetched.any_isLoop
  cases goes_of_places settings (m.fetch top below) hrepeat hplaces with
  | on r sequences hdispatch =>
    refine .on { m.fetch top below with recorder := r.follow, sequences := sequences }
      (hfetched.of_stack rfl rfl) fun rest => ?_
    have hgoes := hdispatch _ (hprolonged rest)
    rw [hadvance]
    exact congrArg Outcome.follow hgoes
  | into r a hloop hopened hdispatch =>
    have hgoes := fun rest => hdispatch ((m.fetch top below).prolong rest).stack
    have hlength : ∀ rest, ((m.fetch top below).prolong rest).stack.length =
        (m.fetch top below).stack.length := fun rest => length_modifyLast _ _
    by_cases hdeep : settings.maxFrameDepth ≤ (m.fetch top below).stack.length
    · refine .stopped .tooDeep rfl fun rest => ?_
      have hstop := hgoes rest
      rw [hlength, if_pos hdeep] at hstop
      obtain ⟨n, hn⟩ := hstop
      exact ⟨n, (hadvance rest).trans (congrArg Outcome.follow hn)⟩
    · refine .on { m.fetch top below with
          recorder := r.follow, stack := a :: (m.fetch top below).stack }
        (hfetched.push hloop hopened rfl rfl) fun rest => ?_
      have hpushed := hgoes rest
      rw [hlength, if_neg hdeep] at hpushed
      rw [hadvance, prolong_push (m.fetch top below) a r.follow (List.cons_ne_nil _ _)]
      exact congrArg Outcome.follow hpushed

theorem unaltered_of_end (h : Forward p m) (hstack : m.stack = top :: below)
    (hend : top.block[top.index]? = none) (hthrough : ¬ Through p m) (hsteps : m.steps < limit)
    (hframes : m.recorder.frames.size < limit) : Unaltered settings limit p m := by
  obtain ⟨hbelow, hnext⟩ := h.leave (n := (m.mapRecorder (close top)).withStack below) hstack hend
    hthrough rfl rfl
  have htop := (h.outside top (by rw [hstack]; exact List.mem_cons_self)).1
  refine .on _ hnext fun rest => ?_
  have hstack' : (m.prolong rest).stack =
      top :: below.modifyLast (Activation.prolong rest) := by
    rw [prolong, hstack]
    exact modifyLast_cons _ top hbelow
  have hleft : ∀ n : Machine, ∀ under, n.finishBlock settings top under =
      .running ((n.mapRecorder (close top)).withStack under) := by
    intro n under
    unfold Activation.isLoop at htop
    unfold finishBlock
    split at htop
    · cases htop
    · rfl
  rw [advance_eq_turn hstack' hsteps hframes]
  simp only [turn, hend, hleft, withStack, activeSegment_prolong]
  rfl

/-- One turn of a program that goes forward and is not through. -/
theorem unaltered (settings : EngineSettings) (limit : Nat) (hp : p.goesForward = true)
    (h : Forward p m) (hthrough : ¬ Through p m) : Unaltered settings limit p m := by
  obtain ⟨above, i, heq, -⟩ := h.bottom
  obtain ⟨top, below, hstack⟩ : ∃ top below, m.stack = top :: below :=
    List.exists_cons_of_ne_nil (by rw [heq]; simp)
  have hopen : ∀ rest, ∃ top' below', (m.prolong rest).stack = top' :: below' := fun rest =>
    List.exists_cons_of_ne_nil fun hnil => by
      have hlength : (m.prolong rest).stack.length = m.stack.length := length_modifyLast _ _
      rw [hnil, hstack] at hlength
      cases hlength
  by_cases hsteps : m.steps < limit
  · by_cases hframes : m.recorder.frames.size < limit
    · cases hs : top.block[top.index]? with
      | some s => exact unaltered_of_statement hp h hstack hs hsteps hframes
      | none => exact unaltered_of_end h hstack hs hthrough hsteps hframes
    · refine .stopped .frameLimit rfl fun rest => ?_
      obtain ⟨top', below', hstack'⟩ := hopen rest
      have hsteps' : ¬ limit ≤ (m.prolong rest).steps := Nat.not_le_of_lt hsteps
      have hframes' : limit ≤ (m.prolong rest).recorder.frames.size := Nat.le_of_not_lt hframes
      exact ⟨_, by simp only [advance, hstack', if_neg hsteps', if_pos hframes']; rfl⟩
  · refine .stopped .stepLimit rfl fun rest => ?_
    obtain ⟨top', below', hstack'⟩ := hopen rest
    have hsteps' : limit ≤ (m.prolong rest).steps := Nat.le_of_not_lt hsteps
    exact ⟨_, by simp only [advance, hstack', if_pos hsteps']; rfl⟩

/-- A program that goes forward is done at the same machine, whatever follows it, unless all these
runs end at the same limit before. -/
theorem exists_through (settings : EngineSettings) (limit : Nat) (hp : p.goesForward = true)
    (h : Forward p m) :
    (∃ last, Forward p last ∧ Through p last ∧
      ∀ rest, Reaches settings limit (m.prolong rest) (last.prolong rest)) ∨
    ∃ why : Stop, why.isLimit = true ∧ ∀ rest, ((m.prolong rest).run settings limit).2 = why := by
  induction m using run.induct settings limit with
  | case1 m m' why hstop =>
    by_cases hthrough : Through p m
    · exact .inl ⟨m, h, hthrough, fun _ => .refl⟩
    · cases unaltered settings limit hp h hthrough with
      | on next _ hadvance =>
        have hnext := hadvance []
        rw [prolong_nil, hstop] at hnext
        cases hnext
      | stopped why hwhy hstopped =>
        refine .inr ⟨why, hwhy, fun rest => ?_⟩
        obtain ⟨n, hn⟩ := hstopped rest
        rw [run_of_stopped hn]
  | case2 m m' hrunning ih =>
    by_cases hthrough : Through p m
    · exact .inl ⟨m, h, hthrough, fun _ => .refl⟩
    · cases unaltered settings limit hp h hthrough with
      | stopped why _ hstopped =>
        obtain ⟨n, hn⟩ := hstopped []
        rw [prolong_nil, hrunning] at hn
        cases hn
      | on next hnext hadvance =>
        have hsame := hadvance []
        rw [prolong_nil, prolong_nil, hrunning] at hsame
        cases hsame
        rcases ih hnext with ⟨last, hlast, hthrough', hreaches⟩ | ⟨why, hwhy, hstops⟩
        · exact .inl ⟨last, hlast, hthrough', fun rest => .head (hadvance rest) (hreaches rest)⟩
        · refine .inr ⟨why, hwhy, fun rest => ?_⟩
          rw [run_of_running (hadvance rest), hstops rest]

theorem within_limits {a : Activation} (hstack : m.stack = a :: below)
    (h : (m.run settings limit).2.isLimit = false) :
    m.steps < limit ∧ m.recorder.frames.size < limit := by
  by_cases hsteps : limit ≤ m.steps
  · have hstop : m.advance settings limit = .stopped m .stepLimit := by
      simp only [advance, hstack, if_pos hsteps]
    rw [run_of_stopped hstop] at h
    cases h
  · by_cases hframes : limit ≤ m.recorder.frames.size
    · have hstop : m.advance settings limit = .stopped m .frameLimit := by
        simp only [advance, hstack, if_neg hsteps, if_pos hframes]
      rw [run_of_stopped hstop] at h
      cases h
    · exact ⟨Nat.lt_of_not_le hsteps, Nat.lt_of_not_le hframes⟩

/-- A run is completed once its outermost block is left. -/
theorem run_of_last {a : Activation} (hstack : m.stack = [a]) (hkind : a.kind = .block)
    (hend : a.block[a.index]? = none) (hsteps : m.steps < limit)
    (hframes : m.recorder.frames.size < limit) :
    m.run settings limit = (m.withStack [], .completed) := by
  have hturn : m.advance settings limit = .running (m.withStack []) := by
    rw [advance_eq_turn hstack hsteps hframes]
    simp only [turn, hend, finishBlock, hkind]
    have hclosed : m.mapRecorder (close a) = m := by
      simp only [mapRecorder, close, hkind]
    rw [hclosed]
  rw [run_of_running hturn]
  exact run_of_stopped rfl

/-- New frames are named after the innermost open segment. -/
theorem activeSegment_of_reaches {start : Machine} (hstart : start.Marked [])
    (h : Reaches settings limit start m) :
    m.recorder.activeSegment = activeSegment m.stack := by
  obtain ⟨entered, hmarked⟩ : ∃ entered, m.Marked entered := by
    induction h with
    | refl => exact ⟨[], hstart⟩
    | tail _ hstep ih =>
      obtain ⟨entered, hmarked⟩ := ih
      have hnext := hmarked.advance settings limit
      rw [hstep] at hnext
      exact ⟨_, hnext⟩
  exact hmarked.active

end Machine

namespace Performance
open Machine Recorder

def reciting (p : Performance) (statements : Block) : Performance :=
  { p with program := { p.program with statements := statements } }

structure Unlimited (p : Performance) (maxSteps : Option Nat) : Prop where
  why : (p.outcome maxSteps).2.isLimit = false
  kept : (p.outcome maxSteps).1.recorder.capped = false

/-- Where a run comes to what follows some statements: they are done, and all that is recorded is
what a run of them alone records. -/
structure Prelude (p : Performance) (maxSteps : Option Nat) (lead : Block) (last : Machine) :
    Prop where
  stack : last.stack = [⟨[], lead, lead.length, .block⟩]
  recent : last.recent = []
  recorder : ((p.reciting lead).outcome maxSteps).1.recorder = last.recorder
  following : last.recorder.Following
  segment : last.recorder.activeSegment = none
  smoothing : last.recorder.smoothing = p.settings.smoothing
  reaches : ∀ rest, Reaches p.settings (p.limit maxSteps)
    (Machine.start (p.reciting (lead ++ rest)).program p.recorder) (last.prolong rest)

namespace Prelude

variable {p : Performance} {maxSteps : Option Nat} {lead rest : Block} {last : Machine}

/-- What follows is what the longer program executes next. -/
theorem prolonged (h : p.Prelude maxSteps lead last) (rest : Block) :
    last.prolong rest = { last with stack := [⟨[], lead ++ rest, lead.length, .block⟩] } := by
  rw [prolong, h.stack]
  rfl

/-- The longer run is the one from there on. -/
theorem outcome_eq (h : p.Prelude maxSteps lead last) (rest : Block) :
    (p.reciting (lead ++ rest)).outcome maxSteps =
      (last.prolong rest).run p.settings (p.limit maxSteps) := (h.reaches rest).run_eq

end Prelude

theorem exists_prelude {p : Performance} {maxSteps : Option Nat} {lead rest : Block}
    (hlead : (p.reciting lead).program.goesForward = true)
    (h : (p.reciting (lead ++ rest)).Unlimited maxSteps) :
    ∃ last, p.Prelude maxSteps lead last := by
  have hstart : ∀ rest, (Machine.start (p.reciting lead).program p.recorder).prolong rest =
      Machine.start (p.reciting (lead ++ rest)).program p.recorder := fun rest => rfl
  have hlimits : ((Machine.start (p.reciting (lead ++ rest)).program p.recorder).run p.settings
      (p.limit maxSteps)).2.isLimit = false := h.why
  rcases exists_through p.settings (p.limit maxSteps) hlead (.start _ p.recorder) with
    ⟨last, hlast, hthrough, hreaches⟩ | ⟨why, hwhy, hstops⟩
  · have halone := hreaches []
    rw [prolong_nil, prolong_nil] at halone
    have hsegment := activeSegment_of_reaches (marked_start (p.reciting lead)) halone
    rw [hthrough] at hsegment
    have hopen : (last.prolong rest).stack = [⟨[], lead ++ rest, lead.length, .block⟩] := by
      rw [prolong, hthrough]
      rfl
    rw [← hstart, (hreaches rest).run_eq] at hlimits
    obtain ⟨hsteps, hframes⟩ := within_limits hopen hlimits
    have hend : lead[lead.length]? = none := List.getElem?_eq_none (Nat.le_refl _)
    have hrun : (p.reciting lead).outcome maxSteps = (last.withStack [], .completed) :=
      halone.run_eq.trans (run_of_last hthrough rfl hend hsteps hframes)
    refine ⟨last, hthrough, hlast.recent, ?_,
      following_reaches halone (following_start _ _ _ _), hsegment,
      smoothing_reaches (p := p.reciting lead) halone, hreaches⟩
    rw [hrun]
    exact setSegment_eq hsegment
  · rw [← hstart, hstops, hwhy] at hlimits
    cases hlimits

end Performance
end Choreography
