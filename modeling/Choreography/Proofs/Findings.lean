import Choreography.Proofs.DryRuns
import Choreography.Proofs.Structured
import Choreography.Proofs.Waiting
import Mathlib

/-! # What a run announces and waits for

If sequences are defined outside of all loops, conditionals and sequences, a run executes its
definitions in the order in which the dry run visits them. Between two of them the sequences stay
as they are, so that the dry run has found the event of whatever statement the run gets to. -/
namespace Choreography

namespace Statement

mutual

def definesInLine : Statement → Bool
  | .define _ body => blockDefinitionCount body == 0
  | .segment _ body => blockDefinesInLine body
  | s => s.definitionCount == 0

def blockDefinesInLine : List Statement → Bool
  | [] => true
  | s :: rest => s.definesInLine && blockDefinesInLine rest

end

theorem blockDefinesInLine_append (first second : Block) :
    blockDefinesInLine (first ++ second) =
      (blockDefinesInLine first && blockDefinesInLine second) := by
  induction first with
  | nil => rfl
  | cons s rest ih =>
    rw [List.cons_append, blockDefinesInLine, blockDefinesInLine, ih, Bool.and_assoc]

theorem blockDefinitionCount_append (first second : Block) :
    blockDefinitionCount (first ++ second) =
      blockDefinitionCount first + blockDefinitionCount second := by
  induction first with
  | nil => simp [blockDefinitionCount]
  | cons s rest ih =>
    rw [List.cons_append, blockDefinitionCount, blockDefinitionCount, ih, Nat.add_assoc]

theorem definesInLine_cases {s : Statement} (h : s.definesInLine = true) :
    (∃ name body, s = .define name body ∧ blockDefinitionCount body = 0) ∨
      (∃ name body, s = .segment name body ∧ blockDefinesInLine body = true) ∨
      s.definitionCount = 0 := by
  cases s with
  | define name body => exact .inl ⟨name, body, rfl, beq_iff_eq.mp h⟩
  | segment name body => exact .inr (.inl ⟨name, body, rfl, h⟩)
  | _ => exact .inr (.inr (beq_iff_eq.mp h))

theorem definitionCount_of_mem {block : Block} (h : blockDefinitionCount block = 0) {s : Statement}
    (hs : s ∈ block) : s.definitionCount = 0 := by
  induction block with
  | nil => cases hs
  | cons t rest ih =>
    rw [blockDefinitionCount] at h
    rcases List.mem_cons.mp hs with rfl | hs
    · omega
    · exact ih (by omega) hs

theorem branchDefinitionCount_of_mem {branches : List Branch}
    (h : branchDefinitionCount branches = 0) {b : Branch} (hb : b ∈ branches) :
    blockDefinitionCount b.body = 0 := by
  induction branches with
  | nil => cases hb
  | cons c rest ih =>
    obtain ⟨condition, body⟩ := c
    rw [branchDefinitionCount] at h
    rcases List.mem_cons.mp hb with rfl | hb
    · change blockDefinitionCount body = 0
      omega
    · exact ih (by omega) hb

theorem definitionCount_of_blocks {s : Statement} (h : s.definitionCount = 0) {block : Block}
    (hblock : block ∈ s.blocks) : blockDefinitionCount block = 0 := by
  cases s with
  | loop count body =>
    rw [List.mem_singleton.mp hblock]
    exact h
  | segment name body =>
    rw [List.mem_singleton.mp hblock]
    exact h
  | conditional branches otherwise =>
    rw [definitionCount] at h
    rcases List.mem_append.mp hblock with hblock | hblock
    · obtain ⟨b, hb, rfl⟩ := List.mem_map.mp hblock
      exact branchDefinitionCount_of_mem (by omega) hb
    · rw [List.mem_singleton.mp hblock]
      omega
  | _ => cases hblock

end Statement

/-- Sequences are defined outside of all loops, conditionals and sequences. -/
def Program.DefinesInLine (p : Program) : Prop :=
  Statement.blockDefinesInLine p.statements = true

instance (p : Program) : Decidable p.DefinesInLine := inferInstanceAs (Decidable (_ = _))

namespace DryRun
open Statement

theorem visitBlock_append (expand : Block → DryRun → DryRun) (first second : Block) (d : DryRun) :
    visitBlock expand (first ++ second) d =
      visitBlock expand second (visitBlock expand first d) := by
  induction first generalizing d with
  | nil => rfl
  | cons s rest ih => exact ih (visitStatement expand s d)

/-- The dry run that ends as `final` has come to `d` and goes on with a block. -/
structure Line (final : DryRun) (depth : Nat) (d : DryRun) (block : Block) : Prop where
  inLine : blockDefinesInLine block = true
  plain : ∀ name body, d.sequences.find? name = some body → blockDefinitionCount body = 0
  expanding : d.expanding = []
  room : d.sequences.size + blockDefinitionCount block ≤ depth
  visit : visitBlock (expandAt depth) block d = final

structure Foresees (final : DryRun) (sequences : Table Block) (s : Statement) : Prop where
  plain : s.definitionCount = 0
  finds : ∀ t, Relation.ReflTransGen (Leads sequences []) s t → final.Finds t

variable {final d : DryRun} {depth : Nat} {s : Statement} {rest : Block}

theorem Foresees.block {sequences : Table Block} (h : Foresees final sequences s) {block : Block}
    (hblock : block ∈ s.blocks) : ∀ t ∈ block, Foresees final sequences t := by
  intro t ht
  have hplain := definitionCount_of_mem (definitionCount_of_blocks h.plain hblock) ht
  exact ⟨hplain, fun u hu => h.finds u (.head (.inside hblock ht) hu)⟩

theorem Foresees.body {sequences : Table Block} {name : String} {body : Block}
    (h : Foresees final sequences (.call name)) (hbody : sequences.find? name = some body)
    (hplain : blockDefinitionCount body = 0) : ∀ t ∈ body, Foresees final sequences t := by
  intro t ht
  refine ⟨definitionCount_of_mem hplain ht, fun u hu => h.finds u (.head ?_ hu)⟩
  exact .call List.not_mem_nil hbody ht

theorem Line.define {name : String} {body : Block}
    (h : Line final depth d (.define name body :: rest)) :
    Line final depth { d with sequences := d.sequences.insert name body } rest := by
  have hinLine := h.inLine
  rw [blockDefinesInLine, Bool.and_eq_true] at hinLine
  refine ⟨hinLine.2, ?_, h.expanding, ?_, h.visit⟩
  · intro other otherBody hother
    rw [Table.find?_insert] at hother
    split at hother
    · cases hother
      exact beq_iff_eq.mp hinLine.1
    · exact h.plain other otherBody hother
  · have hroom := h.room
    have hsize := Table.size_insert_le d.sequences name body
    rw [blockDefinitionCount, definitionCount] at hroom
    change (d.sequences.insert name body).size + _ ≤ depth
    omega

theorem Line.segment {name : String} {body : Block}
    (h : Line final depth d (.segment name body :: rest)) :
    Line final depth d (body ++ rest) := by
  have hinLine := h.inLine
  have hroom := h.room
  refine ⟨?_, h.plain, h.expanding, ?_, ?_⟩
  · rw [blockDefinesInLine_append]
    exact hinLine
  · rw [blockDefinitionCount_append]
    exact hroom
  · rw [visitBlock_append]
    exact h.visit

/-- A visit to a statement that defines no sequence finds what the statement leads to, and what has
been found stays. -/
theorem Line.next (h : Line final depth d (s :: rest)) (hs : s.definitionCount = 0) :
    ∃ d', d'.sequences = d.sequences ∧ Line final depth d' rest ∧
      Foresees final d.sequences s := by
  have hready : Ready depth d := by
    refine ⟨h.plain, ?_, ?_, ?_⟩
    · rw [h.expanding]
      exact List.nodup_nil
    · rw [h.expanding]
      exact List.nil_subset _
    · have hroom := h.room
      omega
  have hcovers := covers_visitStatement (expands_expandAt depth) s hready hs
  -- What the visit finds is still there when the dry run ends.
  have hgrows : Grows (visitStatement (expandAt depth) s d) final := by
    rw [← h.visit]
    exact grows_visitBlock (grows_expandAt depth) rest _
  refine ⟨_, hcovers.sequences, ⟨?_, ?_, ?_, ?_, h.visit⟩, hs, fun t ht => ?_⟩
  · have hinLine := h.inLine
    rw [blockDefinesInLine, Bool.and_eq_true] at hinLine
    exact hinLine.2
  · rw [hcovers.sequences]
    exact h.plain
  · rw [hcovers.grows.expanding]
    exact h.expanding
  · rw [hcovers.sequences]
    have hroom := h.room
    rw [blockDefinitionCount] at hroom
    omega
  · rw [← h.expanding] at ht
    exact hgrows.finds (hcovers.finds t ht)

theorem Line.cases (h : Line final depth d (s :: rest)) :
    (∃ name body, s = .define name body ∧
      Line final depth { d with sequences := d.sequences.insert name body } rest) ∨
    (∃ name body, s = .segment name body ∧ Line final depth d (body ++ rest)) ∨
    ∃ d', d'.sequences = d.sequences ∧ Line final depth d' rest ∧ Foresees final d.sequences s := by
  have hinLine := h.inLine
  rw [blockDefinesInLine, Bool.and_eq_true] at hinLine
  rcases definesInLine_cases hinLine.1 with ⟨name, body, rfl, -⟩ | ⟨name, body, rfl, -⟩ | hplain
  · exact .inl ⟨name, body, rfl, h.define⟩
  · exact .inr (.inl ⟨name, body, rfl, h.segment⟩)
  · exact .inr (.inr (h.next hplain))

end DryRun

def Activation.rest (a : Activation) : Block := a.block.drop a.index

namespace Machine
open DryRun Recorder

def ahead (stack : List Activation) : Block := stack.flatMap Activation.rest

def bodies (m : Machine) : Table Block := m.sequences.map Sequence.body

/-- The open blocks of a run. What is left of those in line is what a dry run with the same
sequences goes on with, and all that the blocks above them lead to has been found. -/
inductive Followed (final : DryRun) (depth : Nat) (sequences : Table Block) :
    List Activation → Prop
  | line {stack : List Activation} (d : DryRun) (hsequences : d.sequences = sequences)
      (hkind : ∀ a ∈ stack, a.isLoop = false) (hline : Line final depth d (ahead stack)) :
      Followed final depth sequences stack
  | inside {a : Activation} {below : List Activation}
      (ha : ∀ s ∈ a.block, Foresees final sequences s)
      (hbelow : Followed final depth sequences below) : Followed final depth sequences (a :: below)

variable {final : DryRun} {depth limit : Nat} {sequences : Table Block} {settings : EngineSettings}
  {m n : Machine} {top : Activation} {below : List Activation} {s : Statement}

theorem Followed.plain {stack : List Activation} (h : Followed final depth sequences stack)
    {name : String} {body : Block} (hbody : sequences.find? name = some body) :
    Statement.blockDefinitionCount body = 0 := by
  induction h with
  | line d hsequences _ hline =>
    subst hsequences
    exact hline.plain name body hbody
  | inside _ _ ih => exact ih

theorem ahead_fetch (hs : top.block[top.index]? = some s) (below : List Activation) :
    ahead (top :: below) = s :: ahead ({ top with index := top.index + 1 } :: below) := by
  have hrest : top.rest = s :: top.block.drop (top.index + 1) := by
    obtain ⟨hlt, rfl⟩ := List.getElem?_eq_some_iff.mp hs
    exact List.drop_eq_getElem_cons hlt
  rw [ahead, ahead, List.flatMap_cons, List.flatMap_cons, hrest]
  rfl

def Foreseen (final : DryRun) (depth : Nat) (m : Machine) : Prop :=
  Followed final depth m.bodies m.stack

/-! ### Leaving blocks -/

theorem Followed.unwindTo {resume : Activation → List Activation → List Activation}
    (hresume : ∀ a below, (∀ s ∈ a.block, Foresees final sequences s) →
      Followed final depth sequences below → Followed final depth sequences (resume a below))
    {stack : List Activation} (h : Followed final depth sequences stack)
    (hloop : stack.any Activation.isLoop = true) (r : Recorder) :
    Followed final depth sequences (unwindTo resume stack r).1 := by
  induction h generalizing r with
  | line d _ hkind _ =>
    obtain ⟨a, ha, hisLoop⟩ := List.any_eq_true.mp hloop
    rw [hkind a ha] at hisLoop
    cases hisLoop
  | @inside a below ha hbelow ih =>
    simp only [Machine.unwindTo]
    split
    · exact hresume a below ha hbelow
    · rename_i hnot
      refine ih ?_ _
      rw [List.any_cons, Bool.or_eq_true] at hloop
      exact hloop.resolve_left hnot

theorem Followed.reindex {stack : List Activation} {a : Activation} (i : Nat)
    (ha : ∀ s ∈ a.block, Foresees final sequences s) (h : Followed final depth sequences stack) :
    Followed final depth sequences ({ a with index := i } :: stack) := .inside ha h

theorem Followed.leave (hend : top.block[top.index]? = none)
    (h : Followed final depth sequences (top :: below)) :
    Followed final depth sequences below := by
  cases h with
  | inside _ hbelow => exact hbelow
  | line d hsequences hkind hline =>
    refine .line d hsequences (fun a ha => hkind a (List.mem_cons_of_mem _ ha)) ?_
    have hrest : top.rest = [] := List.drop_eq_nil_of_le (List.getElem?_eq_none_iff.mp hend)
    rw [ahead, List.flatMap_cons, hrest, List.nil_append] at hline
    exact hline

theorem sequences_countPass (m : Machine) : (m.countPass settings).1.sequences = m.sequences := by
  simp only [countPass]
  split <;> rfl

/-- The next pass of a loop that is not in line is as foreseen as the last one. -/
theorem foreseen_nextPass {k : Machine} (again : Bool)
    (htop : ∀ s ∈ top.block, Foresees final m.bodies s)
    (hbelow : Followed final depth m.bodies below) (hsequences : k.sequences = m.sequences) :
    (k.nextPass top below again).Foreseen final depth := by
  unfold Foreseen bodies nextPass
  cases again with
  | false =>
    simp only [Bool.false_eq_true, if_false, hsequences]
    exact hbelow
  | true =>
    simp only [if_true, hsequences]
    exact hbelow.reindex 0 htop

theorem foreseen_finishPass {site : Site} {passes : PassCount}
    (htop : ∀ s ∈ top.block, Foresees final m.bodies s)
    (hbelow : Followed final depth m.bodies below)
    (hrun : m.finishPass settings top below site passes = .running n) : n.Foreseen final depth := by
  cases passes with
  | short total =>
    cases hrun
    exact foreseen_nextPass _ htop hbelow rfl
  | long total =>
    simp only [finishPass] at hrun
    split at hrun
    · cases hrun
    · cases hrun
      exact foreseen_nextPass _ htop hbelow (sequences_countPass _)

theorem foreseen_finishBlock (h : Followed final depth m.bodies (top :: below))
    (hend : top.block[top.index]? = none)
    (hrun : m.finishBlock settings top below = .running n) : n.Foreseen final depth := by
  have hleft : Followed final depth m.bodies below := h.leave hend
  unfold finishBlock at hrun
  split at hrun
  · rename_i site passes hkind
    cases h with
    | inside htop hbelow => exact foreseen_finishPass htop hbelow hrun
    | line d _ hinLine _ =>
      -- Nothing in line is a loop.
      have hloop := hinLine top List.mem_cons_self
      simp [Activation.isLoop, hkind] at hloop
  · cases hrun
    exact hleft

/-! ### Executing statements -/

/-- A block may be entered after changes that leave the stack and the sequences as they are. -/
theorem foreseen_enter {k : Machine} {a : Activation} (h : m.Foreseen final depth)
    (ha : ∀ s ∈ a.block, Foresees final m.bodies s) (hrun : k.enter settings a = .running n)
    (hstack : k.stack = m.stack) (hsequences : k.sequences = m.sequences) :
    n.Foreseen final depth := by
  have hbodies : k.bodies = m.bodies := congrArg (Table.map Sequence.body) hsequences
  rw [eq_of_enter hrun]
  change Followed final depth k.bodies (a :: k.stack)
  rw [hbodies, hstack]
  exact .inside ha h

/-- A statement that the dry run has foreseen leads to a block that it has foreseen. -/
theorem foreseen_dispatch {site : Site} (h : m.Foreseen final depth)
    (hs : Foresees final m.bodies s) (hrun : m.dispatch settings site s = .running n) :
    n.Foreseen final depth := by
  cases s with
  | loop count body =>
    simp only [dispatch] at hrun
    split at hrun
    · cases hrun
      exact h
    · have hbody : body ∈ (Statement.loop count body).blocks := List.mem_singleton_self body
      simp only [enterLoop] at hrun
      exact foreseen_enter h (hs.block hbody) hrun rfl rfl
  | conditional branches otherwise =>
    simp only [dispatch] at hrun
    split at hrun
    · cases hrun
      exact h
    · have hchosen := hs.block (chooseBranch_mem m.recorder.env branches otherwise)
      exact foreseen_enter h hchosen hrun rfl rfl
  | breakLoop =>
    simp only [dispatch] at hrun
    split at hrun
    · rename_i hloop
      cases hrun
      exact Followed.unwindTo (fun _ _ _ hbelow => hbelow) h hloop _
    · cases hrun
      exact h
  | continueLoop =>
    simp only [dispatch] at hrun
    split at hrun
    · rename_i hloop
      cases hrun
      exact Followed.unwindTo (fun a _ ha hbelow => hbelow.reindex a.block.length ha) h hloop _
    · cases hrun
      exact h
  | define name body =>
    have hplain := hs.plain
    rw [Statement.definitionCount] at hplain
    omega
  | call name =>
    simp only [dispatch] at hrun
    split at hrun
    · rename_i sequence hsequence
      have hbody : m.bodies.find? name = some sequence.body := by
        rw [bodies, Table.find?_map, hsequence]
        rfl
      exact foreseen_enter h (hs.body hbody (h.plain hbody)) hrun rfl rfl
    · cases hrun
      exact h
  | segment name body =>
    simp only [dispatch] at hrun
    split at hrun
    · rename_i k henter
      cases hrun
      have hbody : body ∈ (Statement.segment name body).blocks := List.mem_singleton_self body
      have hk : k.Foreseen final depth := foreseen_enter h (hs.block hbody) henter rfl rfl
      exact hk
    · cases hrun
  | _ =>
    cases hrun
    exact h

/-- Above the blocks in line, a statement and what is left after it are foreseen. -/
theorem Followed.fetch (h : Followed final depth m.bodies (top :: below))
    (hs : top.block[top.index]? = some s) :
    (Foresees final m.bodies s ∧ (m.fetch top below).Foreseen final depth) ∨
      ∃ d, d.sequences = m.bodies ∧ (∀ a ∈ (m.fetch top below).stack, a.isLoop = false) ∧
        Line final depth d (s :: ahead (m.fetch top below).stack) := by
  cases h with
  | inside ha hbelow =>
    exact .inl ⟨ha s (List.mem_of_getElem? hs), hbelow.reindex (top.index + 1) ha⟩
  | line d hsequences hkind hline =>
    rw [ahead_fetch hs] at hline
    refine .inr ⟨d, hsequences, fun a ha => ?_, hline⟩
    rcases List.mem_cons.mp ha with rfl | ha
    · exact hkind top List.mem_cons_self
    · exact hkind a (List.mem_cons_of_mem _ ha)

/-- In line the dry run takes a step together with the machine. -/
theorem foreseen_inLine {site : Site} {d : DryRun} (hsequences : d.sequences = m.bodies)
    (hkind : ∀ a ∈ m.stack, a.isLoop = false) (hline : Line final depth d (s :: ahead m.stack))
    (hrun : m.dispatch settings site s = .running n) : n.Foreseen final depth := by
  rcases hline.cases with
    ⟨name, body, rfl, hnext⟩ | ⟨name, body, rfl, hnext⟩ | ⟨d', hsame, hnext, hforesees⟩
  · cases hrun
    refine .line _ ?_ hkind hnext
    rw [bodies, Table.map_insert, hsequences]
    rfl
  · simp only [dispatch] at hrun
    split at hrun
    · rename_i henter
      cases hrun
      rw [eq_of_enter henter]
      refine .line d hsequences (fun a ha => ?_) hnext
      rcases List.mem_cons.mp ha with rfl | ha
      · rfl
      · exact hkind a ha
    · cases hrun
  · rw [hsequences] at hforesees
    have hforeseen : m.Foreseen final depth := .line d' (hsame.trans hsequences) hkind hnext
    exact foreseen_dispatch hforeseen hforesees hrun

theorem foreseen_turn (h : Followed final depth m.bodies (top :: below))
    (hrun : m.turn settings top below = .running n) : n.Foreseen final depth := by
  cases hs : top.block[top.index]? with
  | none =>
    simp only [turn, hs] at hrun
    exact foreseen_finishBlock h hs hrun
  | some s =>
    rw [turn_of_statement hs] at hrun
    cases hdispatch : (m.fetch top below).dispatch settings (top.index :: top.site) s with
    | stopped k why =>
      rw [hdispatch] at hrun
      cases hrun
    | running k =>
      rw [hdispatch] at hrun
      cases hrun
      change k.Foreseen final depth
      rcases h.fetch hs with ⟨hforesees, hfetch⟩ | ⟨d, hsequences, hkind, hline⟩
      · exact foreseen_dispatch hfetch hforesees hdispatch
      · exact foreseen_inLine (m := m.fetch top below) hsequences hkind hline hdispatch

theorem foreseen_reaches (hreaches : Reaches settings limit m n) (hm : m.Foreseen final depth) :
    n.Foreseen final depth := by
  induction hreaches with
  | refl => exact hm
  | tail _ hstep ih =>
    obtain ⟨top, below, hstack, -, -, hturn⟩ := turn_of_advance hstep
    unfold Foreseen at ih
    rw [hstack] at ih
    exact foreseen_turn ih hturn

theorem AtStatement.foreseen (h : m.AtStatement limit s) (hm : m.Foreseen final depth) :
    final.Finds s := by
  obtain ⟨top, below, hstack, hs, -⟩ := h
  unfold Foreseen at hm
  rw [hstack] at hm
  rcases hm.fetch hs with ⟨hforesees, -⟩ | ⟨d, -, -, hline⟩
  · exact hforesees.finds s .refl
  · rcases hline.cases with ⟨name, body, rfl, -⟩ | ⟨name, body, rfl, -⟩ | ⟨d', -, -, hforesees⟩
    · trivial
    · trivial
    · exact hforesees.finds s .refl

theorem foreseen_start {program : Program} (hprogram : program.DefinesInLine) (r : Recorder)
    (env : Env) :
    (start program r).Foreseen (DryRun.of program env)
      (Statement.blockDefinitionCount program.statements) := by
  have hahead : ahead (start program r).stack = program.statements := by
    simp [ahead, start, Activation.rest]
  refine .line (DryRun.start env) rfl ?_ ?_
  · intro a ha
    rw [List.mem_singleton.mp ha]
    rfl
  · rw [hahead]
    refine ⟨hprogram, nofun, rfl, ?_, ?_⟩
    · exact Nat.le_of_eq (Nat.zero_add _)
    · rw [DryRun.of, visit_eq]

end Machine

namespace Performance
open Machine

variable {p : Performance} {maxSteps : Option Nat} {m : Machine} {s : Statement}

theorem exists_executing_sync {e : SyncEvent} (he : e ∈ (p.perform maxSteps).timeline.syncs) :
    ∃ m, p.Executing maxSteps m (.sync e.name) := by
  obtain ⟨tick, htick⟩ := Coordinator.exists_firstTick he
  rw [syncs_perform] at htick
  obtain ⟨m, hm, -⟩ := announced_outcome p maxSteps e.name tick htick
  exact ⟨m, hm⟩

/-- Whatever a run executes, the dry run has found. -/
theorem Executing.found (h : p.Executing maxSteps m s) (hp : p.program.DefinesInLine) (env : Env) :
    (DryRun.of p.program env).Finds s :=
  h.next.foreseen (foreseen_reaches h.reached (foreseen_start hp p.recorder env))

/-- If sequences are defined outside of all loops, conditionals and sequences, then a run announces
and waits for nothing that has not been found without it. -/
theorem found_without_run (p : Performance) (maxSteps : Option Nat)
    (hp : p.program.DefinesInLine) :
    (∀ e ∈ (p.perform maxSteps).timeline.syncs,
      ∃ estimate ∈ p.syncEvents.value, estimate.name = e.name) ∧
    ∀ m event maxTicks, p.Executing maxSteps m (.waitFor event maxTicks) →
      p.waitingFor.value.contains event = true := by
  refine ⟨fun e he => ?_, fun m event maxTicks h => h.found hp p.unplaced.env⟩
  obtain ⟨m, hm⟩ := exists_executing_sync he
  exact List.mem_map.mp (hm.found hp p.env)

def playing (statements : Block) : Performance where
  program := .ofBlock statements
  settings := {}
  widget := ⟨1, 1⟩
  container := ⟨9, 9⟩
  start := .plain 0 0
  eventTicks := ∅
  source := fun _ => none

/-- Waits and then walks in laps; a sequence that calls itself is defined in a segment. -/
def patrol : Performance := playing [
  .waitFor "go" (.int 2),
  .segment "setup" [.define "lap" [
    .move (.along .right (.int 2)),
    .sync "lap",
    .conditional [.mk (.binary (.comparison .lt) (.variable "widget.x") (.int 4)) [.call "lap"]]
      []]],
  .repeated (.int 2) [.call "lap"]]

theorem found_without_run_patrol :
    patrol.program.DefinesInLine ∧
      (patrol.perform none).timeline.syncs = [⟨"lap", 5⟩, ⟨"lap", 8⟩, ⟨"lap", 11⟩] ∧
      (∃ estimate ∈ patrol.syncEvents.value, estimate.name = "lap") ∧
      patrol.waitingFor.value.contains "go" = true := by
  have hdefines : patrol.program.DefinesInLine := by decide
  have hsyncs : (patrol.perform none).timeline.syncs = [⟨"lap", 5⟩, ⟨"lap", 8⟩, ⟨"lap", 11⟩] := by
    cbv
  obtain ⟨hannounced, hawaited⟩ := found_without_run patrol none hdefines
  have hlimit : 0 < patrol.limit none := Nat.le_max_left _ _
  have hwait : patrol.Executing none (.start patrol.program patrol.recorder)
      (.waitFor "go" (.int 2)) := ⟨.refl, _, _, rfl, rfl, hlimit, hlimit⟩
  refine ⟨hdefines, hsyncs, hannounced ⟨"lap", 5⟩ ?_, hawaited _ _ _ hwait⟩
  rw [hsyncs]
  exact List.mem_cons_self

/-- Calls a sequence that only the first pass of the loop defines. -/
def late (s : Statement) : Performance :=
  playing [.repeated (.int 2) [.call "later", .define "later" [s]]]

/-- What a second pass announces or waits for in a sequence that the first pass defines after its
call is not found without a run. -/
theorem unfound_of_late_definition :
    ((∃ m, (late (.waitFor "go" (.int 3))).Executing none m (.waitFor "go" (.int 3))) ∧
      (late (.waitFor "go" (.int 3))).waitingFor.value.contains "go" = false) ∧
    ((late (.sync "go")).perform none).timeline.syncs = [⟨"go", 0⟩] ∧
      (late (.sync "go")).syncEvents.value = [] := by
  have hwait : ∃ m, (late (.waitFor "go" (.int 3))).Executing none m (.waitFor "go" (.int 3)) :=
    ⟨_, .head rfl (.head rfl (.head rfl (.head rfl (.head rfl .refl)))),
      _, _, rfl, rfl, by decide, by decide⟩
  exact ⟨⟨hwait, by decide⟩, by cbv, by decide⟩

/-- Nor may a branch or a sequence define what is called later: the dry run takes the definition in
the last branch, and it does not visit the body that a sequence gives itself. -/
example :
    let branch := playing [
      .conditional [.mk (.int 1) [.define "later" [.sync "go"]]] [.define "later" []],
      .call "later"]
    let sequence := playing [
      .define "later" [.define "later" [.sync "go"], .call "later"],
      .call "later"]
    (branch.perform none).timeline.syncs = [⟨"go", 0⟩] ∧ branch.syncEvents.value = [] ∧
      (sequence.perform none).timeline.syncs = [⟨"go", 0⟩] ∧ sequence.syncEvents.value = [] := by
  cbv

end Performance
end Choreography
