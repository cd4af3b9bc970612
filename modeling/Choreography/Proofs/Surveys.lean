import Choreography.Diagnostics
import Choreography.Proofs.Places

/-! # Surveys

A survey of a program visits its places one after another and looks only at the statement of each,
without the blocks in it. So every warning belongs to a place, except those on the names of
sequences, which need the whole survey. -/
namespace Choreography

def Warning.isLocal : Warning → Bool
  | .undefinedSequence _ => false
  | .duplicateSequence _ => false
  | _ => true

def Statement.bare : Statement → Statement
  | .loop count _ => .loop count []
  | .conditional _ _ => .conditional [] []
  | .define name _ => .define name []
  | .segment name _ => .segment name []
  | s => s

def Statement.checked : Statement → List (String × Expr)
  | .move m => [("distance", m.distance), ("step", m.step), ("interval", m.interval)]
  | .scrollClip m => [("distance", m.distance), ("step", m.step), ("interval", m.interval)]
  | .scrollBounce m => [("distance", m.distance), ("step", m.step), ("interval", m.interval)]
  | .slide m => [("distance", m.distance), ("step", m.step), ("interval", m.interval)]
  | .scrollLoop m => [("step", m.step), ("interval", m.interval)]
  | .moveTo _ _ step interval => [("step", step), ("interval", interval)]
  | .pause duration => [("duration", duration)]
  | .waitFor _ maxTicks => [("max_ticks", maxTicks)]
  | .period ticks => [("ticks", ticks)]
  | .loop (.times count) _ => [("count", count)]
  | _ => []

def Statement.stray (depth : Nat) : Statement → List Warning
  | .breakLoop => if depth = 0 then [.breakOutsideLoop] else []
  | .continueLoop => if depth = 0 then [.continueOutsideLoop] else []
  | _ => []

namespace Diagnostics

def visit (found : Survey) (place : Place) : Survey :=
  surveyStatement place.depth place.statement.bare found

mutual

theorem surveyStatement_eq_foldl (site : Site) (depth : Nat) (s : Statement) (found : Survey) :
    surveyStatement depth s found = (s.places site depth).foldl visit found := by
  cases s with
  | loop count body =>
    cases count with
    | infinite => exact surveyBlock_eq_foldl site (depth + 1) 0 body found
    | times e => exact surveyBlock_eq_foldl site (depth + 1) 0 body _
  | conditional branches otherwise =>
    rw [Statement.places, List.foldl_cons, List.foldl_append, surveyStatement,
      surveyBranches_eq_foldl site depth 0 branches found]
    exact surveyBlock_eq_foldl (branches.length :: site) depth 0 otherwise _
  | define name body => exact surveyBlock_eq_foldl site (max depth 1) 0 body _
  | segment name body => exact surveyBlock_eq_foldl site depth 0 body found
  | _ => rfl

theorem surveyBlock_eq_foldl (site : Site) (depth k : Nat) (block : List Statement)
    (found : Survey) :
    surveyBlock depth block found = (Statement.blockPlaces site depth k block).foldl visit found := by
  cases block with
  | nil => rfl
  | cons s rest =>
    rw [Statement.blockPlaces, List.foldl_append, surveyBlock,
      surveyStatement_eq_foldl (k :: site) depth s found]
    exact surveyBlock_eq_foldl site depth (k + 1) rest _

theorem surveyBranches_eq_foldl (site : Site) (depth k : Nat) (branches : List Branch)
    (found : Survey) :
    surveyBranches depth branches found =
      (Statement.branchPlaces site depth k branches).foldl visit found := by
  cases branches with
  | nil => rfl
  | cons b rest =>
    obtain ⟨condition, body⟩ := b
    rw [Statement.branchPlaces, List.foldl_append, surveyBranches,
      surveyBlock_eq_foldl (k :: site) depth 0 body found]
    exact surveyBranches_eq_foldl site depth (k + 1) rest _

end

def warningsAt (place : Place) : List Warning := (visit ⟨[], [], []⟩ place).warnings

theorem warningsAt_eq (site : Site) (depth : Nat) (s : Statement) :
    warningsAt ⟨site, depth, s⟩ =
      (s.checked.flatMap fun (argument, e) => positive s.kind argument e) ++ s.stray depth := by
  cases s with
  | loop count body => cases count <;>
      simp [warningsAt, visit, Statement.bare, surveyStatement, surveyBlock, Survey.warn,
        Statement.checked, Statement.stray, Statement.kind]
  | breakLoop => cases depth <;> rfl
  | continueLoop => cases depth <;> rfl
  | define name body =>
      simp [warningsAt, visit, Statement.bare, surveyStatement, surveyBlock, Survey.define,
        Statement.checked, Statement.stray]
  | _ => simp [warningsAt, visit, Statement.bare, surveyStatement, surveyBlock, surveyBranches,
        Survey.warn, Survey.call, movement, stepping, Statement.checked, Statement.stray,
        Statement.kind]

/-- What the survey may warn about at a place. -/
inductive Warned (s : Statement) (depth : Nat) : Warning → Prop
  | argument {argument : String} {e : Expr} {value : Int} (harg : (argument, e) ∈ s.checked)
      (hvalue : e.literalInteger? = some value) (hle : value ≤ 0) :
      Warned s depth (.nonPositiveArgument s.kind argument value)
  | breakLoop (hs : s = .breakLoop) (hdepth : depth = 0) : Warned s depth .breakOutsideLoop
  | continueLoop (hs : s = .continueLoop) (hdepth : depth = 0) :
      Warned s depth .continueOutsideLoop

theorem warned_of_mem {site : Site} {depth : Nat} {s : Statement} {w : Warning}
    (h : w ∈ warningsAt ⟨site, depth, s⟩) : Warned s depth w := by
  rw [warningsAt_eq, List.mem_append, List.mem_flatMap] at h
  rcases h with ⟨⟨argument, e⟩, harg, hw⟩ | hw
  · change w ∈ positive s.kind argument e at hw
    unfold positive at hw
    split at hw
    · rename_i value hvalue
      rw [List.mem_ite_nil_right, List.mem_singleton] at hw
      rw [hw.2]
      exact .argument harg hvalue hw.1
    · cases hw
  · cases s with
    | breakLoop =>
      simp only [Statement.stray, List.mem_ite_nil_right, List.mem_singleton] at hw
      rw [hw.2]
      exact .breakLoop rfl hw.1
    | continueLoop =>
      simp only [Statement.stray, List.mem_ite_nil_right, List.mem_singleton] at hw
      rw [hw.2]
      exact .continueLoop rfl hw.1
    | _ => cases hw

theorem isLocal_of_warned {s : Statement} {depth : Nat} {w : Warning} (h : Warned s depth w) :
    w.isLocal = true := by
  cases h <;> rfl

/-- A visit adds the name of a sequence, the name of a call, or warnings. -/
theorem visit_eq (found : Survey) (place : Place) :
    visit found place = match place.statement with
      | .define name _ => found.define name
      | .call name => found.call name
      | _ => found.warn (warningsAt place) := by
  have hnil : found.warn [] = found := by simp [Survey.warn]
  obtain ⟨site, depth, s⟩ := place
  cases s with
  | loop count body =>
    cases count with
    | infinite => exact hnil.symm
    | times e => rfl
  | breakLoop =>
    cases depth with
    | zero => rfl
    | succ depth => exact hnil.symm
  | continueLoop =>
    cases depth with
    | zero => rfl
    | succ depth => exact hnil.symm
  | conditional branches otherwise => exact hnil.symm
  | segment name body => exact hnil.symm
  | resetPosition => exact hnil.symm
  | sync event => exact hnil.symm
  | _ => rfl

/-! ### What a survey finds -/

variable {name : String}

theorem mem_defined_visit (found : Survey) (place : Place) :
    name ∈ (visit found place).defined ↔
      name ∈ found.defined ∨ ∃ body, place.statement = .define name body := by
  rw [visit_eq]
  cases place.statement with
  | define other body =>
    simp only [Survey.define]
    split
    · rename_i hknown
      have hother : other ∈ found.defined := List.contains_iff_mem.mp hknown
      simp only [Survey.warn, Statement.define.injEq, exists_and_left, exists_eq', and_true]
      exact ⟨.inl, fun h => h.elim id fun h => h ▸ hother⟩
    · simp [eq_comm]
  | _ => simp [Survey.warn, Survey.call]

theorem mem_called_visit (found : Survey) (place : Place) :
    name ∈ (visit found place).called ↔ name ∈ found.called ∨ place.statement = .call name := by
  rw [visit_eq]
  cases place.statement with
  | define other body =>
    simp only [Survey.define]
    split <;> simp [Survey.warn]
  | call other => simp [Survey.call, eq_comm]
  | _ => simp [Survey.warn]

/-- A visit adds the warnings at its place and none on undefined sequences. -/
theorem warnings_visit (found : Survey) (place : Place) :
    ∃ added, (visit found place).warnings = found.warnings ++ added ∧
      added.filter Warning.isLocal = warningsAt place ∧
      ∀ name, .undefinedSequence name ∉ added := by
  obtain ⟨site, depth, s⟩ := place
  rw [visit_eq]
  cases s with
  | define other body =>
    simp only [Survey.define]
    split
    · exact ⟨[.duplicateSequence other], rfl, rfl, by simp⟩
    · exact ⟨[], (List.append_nil _).symm, rfl, by simp⟩
  | call other => exact ⟨[], (List.append_nil _).symm, rfl, by simp⟩
  | _ =>
    refine ⟨_, rfl, List.filter_eq_self.mpr fun w hw => isLocal_of_warned (warned_of_mem hw), ?_⟩
    intro name hname
    cases isLocal_of_warned (warned_of_mem hname)

/-- What each place may add to a list of names, all of them together add. -/
theorem mem_foldl_visit {names : Survey → List String} {Adds : Place → Prop}
    (hvisit : ∀ found place, name ∈ names (visit found place) ↔ name ∈ names found ∨ Adds place)
    (places : List Place) (found : Survey) :
    name ∈ names (places.foldl visit found) ↔ name ∈ names found ∨ ∃ place ∈ places, Adds place := by
  induction places generalizing found with
  | nil => simp
  | cons place rest ih =>
    rw [List.foldl_cons, ih, hvisit]
    simp only [List.mem_cons, exists_eq_or_imp, or_assoc]

theorem warnings_foldl (places : List Place) (found : Survey) :
    ∃ added, (places.foldl visit found).warnings = found.warnings ++ added ∧
      added.filter Warning.isLocal = places.flatMap warningsAt ∧
      ∀ name, .undefinedSequence name ∉ added := by
  induction places generalizing found with
  | nil => exact ⟨[], (List.append_nil _).symm, rfl, by simp⟩
  | cons place rest ih =>
    obtain ⟨first, hfirst, hlocal, hundefined⟩ := warnings_visit found place
    obtain ⟨later, hlater, hlocal', hundefined'⟩ := ih (visit found place)
    refine ⟨first ++ later, ?_, ?_, fun name h => ?_⟩
    · rw [List.foldl_cons, hlater, hfirst, List.append_assoc]
    · rw [List.filter_append, hlocal, hlocal', List.flatMap_cons]
    · exact (List.mem_append.mp h).elim (hundefined name) (hundefined' name)

def surveyed (p : Program) : Survey := p.places.foldl visit ⟨[], [], []⟩

theorem ofProgram_eq (p : Program) :
    ofProgram p = (surveyed p).warnings ++ undefinedCalls (surveyed p) := by
  rw [ofProgram, surveyBlock_eq_foldl [] 0 0]
  rfl

/-- The warnings about statements on their own are those at the places of the program, in their
order. -/
theorem local_warnings (p : Program) :
    (ofProgram p).filter Warning.isLocal = p.places.flatMap warningsAt := by
  obtain ⟨added, hadded, hlocal, -⟩ := warnings_foldl p.places ⟨[], [], []⟩
  have hwarnings : (surveyed p).warnings = added := hadded
  have hnone : (undefinedCalls (surveyed p)).filter Warning.isLocal = [] := by
    apply List.filter_eq_nil_iff.mpr
    intro w hw
    obtain ⟨name, -, rfl⟩ := List.mem_map.mp hw
    exact Bool.false_ne_true
  rw [ofProgram_eq, List.filter_append, hnone, List.append_nil, hwarnings, hlocal]

/-- The survey reports a sequence as undefined exactly if it is called somewhere and defined
nowhere. -/
theorem undefinedSequence_iff (p : Program) (name : String) :
    .undefinedSequence name ∈ ofProgram p ↔
      (∃ place ∈ p.places, place.statement = .call name) ∧
        ¬ ∃ place ∈ p.places, ∃ body, place.statement = .define name body := by
  obtain ⟨added, hadded, -, hundefined⟩ := warnings_foldl p.places ⟨[], [], []⟩
  have hwarnings : (surveyed p).warnings = added := hadded
  have hcalled : name ∈ (surveyed p).called ↔ _ :=
    mem_foldl_visit mem_called_visit p.places ⟨[], [], []⟩
  have hdefined : name ∈ (surveyed p).defined ↔ _ :=
    mem_foldl_visit mem_defined_visit p.places ⟨[], [], []⟩
  simp only [List.not_mem_nil, false_or] at hcalled hdefined
  rw [ofProgram_eq, hwarnings, List.mem_append, or_iff_right (hundefined name), ← hcalled,
    ← hdefined]
  simp [undefinedCalls]

end Diagnostics

end Choreography
