import Choreography.Proofs.DryRuns
import Choreography.Proofs.MachineIntegers

/-! # Expansions of a dry run

A dry run step by step, without a bound on how deep calls may nest: what is left to do stands on a
stack, and when the body of a sequence is done its name is released. It ends for every program. The
names that are being expanded are distinct and all of them are defined somewhere in the program, so
there is only room for so many of them; between two expansions the blocks that are left get
shorter. Ticks are counted with sixty-four bits, so beside the count of a run stands its exact time. -/
namespace Choreography

namespace Statement

mutual

def definitions : Statement → List String
  | .loop _ body => blockDefinitions body
  | .conditional branches otherwise => branchDefinitions branches ++ blockDefinitions otherwise
  | .define name body => name :: blockDefinitions body
  | .segment _ body => blockDefinitions body
  | _ => []

def blockDefinitions : List Statement → List String
  | [] => []
  | s :: rest => s.definitions ++ blockDefinitions rest

def branchDefinitions : List Branch → List String
  | [] => []
  | .mk _ body :: rest => blockDefinitions body ++ branchDefinitions rest

end

mutual

theorem length_definitions (s : Statement) : s.definitions.length = s.definitionCount := by
  cases s with
  | loop count body => exact length_blockDefinitions body
  | segment name body => exact length_blockDefinitions body
  | define name body => exact congrArg (· + 1) (length_blockDefinitions body)
  | conditional branches otherwise =>
    rw [definitions, definitionCount, List.length_append, length_branchDefinitions branches,
      length_blockDefinitions otherwise]
  | _ => rfl

theorem length_blockDefinitions (block : List Statement) :
    (blockDefinitions block).length = blockDefinitionCount block := by
  cases block with
  | nil => rfl
  | cons s rest =>
    rw [blockDefinitions, blockDefinitionCount, List.length_append, length_definitions s,
      length_blockDefinitions rest]

theorem length_branchDefinitions (branches : List Branch) :
    (branchDefinitions branches).length = branchDefinitionCount branches := by
  cases branches with
  | nil => rfl
  | cons b rest =>
    obtain ⟨condition, body⟩ := b
    rw [branchDefinitions, branchDefinitionCount, List.length_append, length_blockDefinitions body,
      length_branchDefinitions rest]

end

/-- The ticks that a statement takes in a dry run, apart from those of the blocks in it. -/
def duration (env : Env) : Statement → Nat
  | .pause duration => (env.evalInteger duration).toNat
  | .move m => (env.evalInteger m.interval).toNat
  | .scrollClip m => (env.evalInteger m.interval).toNat
  | .scrollLoop m => (env.evalInteger m.interval).toNat
  | .scrollBounce m => (env.evalInteger m.interval).toNat
  | .slide m => (env.evalInteger m.interval).toNat
  | .moveTo _ _ _ interval => (env.evalInteger interval).toNat
  | .sync _ => 1
  | .waitFor _ _ => 1
  | .resetPosition => 1
  | .breakLoop => 1
  | .continueLoop => 1
  | .period _ => 1
  | _ => 0

/-- When a statement that is taken up at a given time announces an event. -/
def announcedAt (time : Nat) : Statement → List Nat
  | .sync _ => [time]
  | _ => []

end Statement

namespace DryRun
open Statement

/-! ### Courses -/

/-- What is left to do: the rest of a block, or to release the name of a sequence whose body has been
visited. -/
inductive Pending where
  | block (rest : Block)
  | release (name : String)

def Pending.released? : Pending → Option String
  | .block _ => none
  | .release name => some name

/-- A dry run on its way, with what is left to do, the innermost first. -/
structure Course where
  run : DryRun
  todo : List Pending

def release (d : DryRun) (name : String) : DryRun :=
  { d with expanding := d.expanding.erase name }

theorem expanding_release {d : DryRun} {name : String} {expanding : List String}
    (h : d.expanding = name :: expanding) : (d.release name).expanding = expanding := by
  rw [release, h, List.erase_cons_head]

/-- Takes up a statement before what is left to do: the blocks in it go first, and so does the body
of a sequence that is called, unless the sequence is being expanded. -/
def takeUp (d : DryRun) (s : Statement) (todo : List Pending) : Course :=
  match s with
  | .loop _ body => ⟨d, .block body :: todo⟩
  | .segment _ body => ⟨d, .block body :: todo⟩
  | .conditional branches otherwise => ⟨d, (arms branches otherwise).map .block ++ todo⟩
  | .call name =>
      match d.sequences.find? name with
      | none => ⟨d, todo⟩
      | some body =>
          if d.expanding.contains name then ⟨d, todo⟩
          else ⟨d.begin name, .block body :: .release name :: todo⟩
  | s => ⟨visitStatement (fun _ d => d) s d, todo⟩

theorem takeUp_of_undefined {d : DryRun} {name : String} (h : d.sequences.find? name = none) :
    d.takeUp (.call name) = Course.mk d := by
  funext todo
  simp only [takeUp, h]

theorem takeUp_of_expanding {d : DryRun} {name : String} (h : name ∈ d.expanding) :
    d.takeUp (.call name) = Course.mk d := by
  funext todo
  simp only [takeUp, List.contains_iff_mem.mpr h, if_true]
  split <;> rfl

theorem takeUp_of_free {d : DryRun} {name : String} {body : Block} {todo : List Pending}
    (hbody : d.sequences.find? name = some body) (hname : name ∉ d.expanding) :
    d.takeUp (.call name) todo = ⟨d.begin name, .block body :: .release name :: todo⟩ := by
  simp only [takeUp, hbody, List.contains_iff_mem, hname, if_false]

/-- What is left to do after a statement stays left while the statement is taken up. -/
theorem exists_takeUp_eq (d : DryRun) (s : Statement) :
    ∃ d' begun, ∀ todo, d.takeUp s todo = ⟨d', begun ++ todo⟩ := by
  cases s with
  | call name =>
    cases hbody : d.sequences.find? name with
    | none => exact ⟨d, [], fun todo => congrFun (takeUp_of_undefined hbody) todo⟩
    | some body =>
      by_cases hname : name ∈ d.expanding
      · exact ⟨d, [], fun todo => congrFun (takeUp_of_expanding hname) todo⟩
      · exact ⟨_, [.block body, .release name], fun todo => takeUp_of_free hbody hname⟩
  | loop count body => exact ⟨d, [.block body], fun _ => rfl⟩
  | segment name body => exact ⟨d, [.block body], fun _ => rfl⟩
  | conditional branches otherwise => exact ⟨d, _, fun _ => rfl⟩
  | _ => exact ⟨_, [], fun _ => rfl⟩

namespace Course

def step (c : Course) : Option Course :=
  match c.todo with
  | [] => none
  | .release name :: todo => some ⟨c.run.release name, todo⟩
  | .block [] :: todo => some ⟨c.run, todo⟩
  | .block (s :: rest) :: todo => some (c.run.takeUp s (.block rest :: todo))

/-- A step releases a name, leaves a block or takes up a statement. -/
theorem step_cases {d : DryRun} {todo : List Pending} {c' : Course}
    (h : step ⟨d, todo⟩ = some c') :
    (∃ name rest, todo = .release name :: rest ∧ c' = ⟨d.release name, rest⟩) ∨
      (∃ rest, todo = .block [] :: rest ∧ c' = ⟨d, rest⟩) ∨
      ∃ s block rest, todo = .block (s :: block) :: rest ∧
        c' = d.takeUp s (.block block :: rest) := by
  cases todo with
  | nil => cases h
  | cons next rest =>
    cases next with
    | release name => exact .inl ⟨name, rest, rfl, (Option.some.inj h).symm⟩
    | block statements =>
      cases statements with
      | nil => exact .inr (.inl ⟨rest, rfl, (Option.some.inj h).symm⟩)
      | cons s block => exact .inr (.inr ⟨s, block, rest, rfl, (Option.some.inj h).symm⟩)

abbrev Reaches : Course → Course → Prop := Relation.ReflTransGen fun c c' => c.step = some c'

def start (program : Program) (env : Env) : Course := ⟨.start env, [.block program.statements]⟩

/-- Where a dry run ends is where it leads to from every moment on the way. -/
theorem Reaches.to_last {c c' last : Course} (hlast : Reaches c last) (hnone : last.step = none)
    (h : Reaches c c') : Reaches c' last := by
  induction h with
  | refl => exact hlast
  | tail _ hstep ih =>
    rcases ih.cases_head with rfl | ⟨next, hnext, hrest⟩
    · rw [hnone] at hstep
      cases hstep
    · cases hstep.symm.trans hnext
      exact hrest

/-- A step leaves alone what stands after the first thing that is left to do. -/
theorem step_append {d : DryRun} {next : Pending} {c' : Course} {first rest : List Pending}
    (h : step ⟨d, next :: (first ++ rest)⟩ = some c') : ∃ d' first', c' = ⟨d', first' ++ rest⟩ := by
  obtain ⟨name, _, heq, rfl⟩ | ⟨_, heq, rfl⟩ | ⟨s, block, _, heq, rfl⟩ := step_cases h
  · cases heq
    exact ⟨_, first, rfl⟩
  · cases heq
    exact ⟨d, first, rfl⟩
  · cases heq
    obtain ⟨d', begun, hbegun⟩ := d.exists_takeUp_eq s
    refine ⟨d', begun ++ .block block :: first, ?_⟩
    rw [hbegun, List.append_assoc, List.cons_append]

/-- A dry run that comes to an end gets to each thing that is left to do. -/
theorem Reaches.passes {d : DryRun} {first rest : List Pending} {last : Course}
    (h : Reaches ⟨d, first ++ rest⟩ last) (hlast : last.todo = []) :
    ∃ d', Reaches ⟨d, first ++ rest⟩ ⟨d', rest⟩ := by
  generalize hc : (⟨d, first ++ rest⟩ : Course) = c at h ⊢
  induction h using Relation.ReflTransGen.head_induction_on generalizing d first with
  | refl =>
    rw [← hc] at hlast ⊢
    rw [(List.append_eq_nil_iff.mp hlast).1]
    exact ⟨d, .refl⟩
  | head hstep _ ih =>
    cases first with
    | nil =>
      rw [← hc]
      exact ⟨d, .refl⟩
    | cons next first =>
      rw [← hc] at hstep ⊢
      obtain ⟨d', first', hnext⟩ := step_append hstep
      obtain ⟨d'', hreaches⟩ := ih hnext.symm
      exact ⟨d'', .head hstep hreaches⟩

/-- What holds of a dry run at every moment: the names that are being expanded are distinct and are
those that are still to be released. -/
structure Orderly (c : Course) : Prop where
  distinct : c.run.expanding.Nodup
  pending : c.run.expanding = c.todo.filterMap Pending.released?

namespace Orderly

variable {d d' : DryRun} {todo todo' : List Pending}

theorem start (program : Program) (env : Env) : (Course.start program env).Orderly := ⟨.nil, rfl⟩

/-- No name is begun or released. -/
theorem pass (h : Orderly ⟨d, todo⟩) (hexpanding : d'.expanding = d.expanding)
    (hpending : todo'.filterMap Pending.released? = todo.filterMap Pending.released?) :
    Orderly ⟨d', todo'⟩ where
  distinct := by
    rw [hexpanding]
    exact h.distinct
  pending := by
    rw [hexpanding, hpending]
    exact h.pending

theorem begin {name : String} (h : Orderly ⟨d, todo⟩) (hname : name ∉ d.expanding) (body : Block) :
    Orderly ⟨d.begin name, .block body :: .release name :: todo⟩ where
  distinct := List.nodup_cons.mpr ⟨hname, h.distinct⟩
  pending := congrArg (name :: ·) h.pending

/-- The name that is released was the latest one to be expanded. -/
theorem release {name : String} (h : Orderly ⟨d, .release name :: todo⟩) :
    Orderly ⟨d.release name, todo⟩ := by
  have hpending : d.expanding = name :: todo.filterMap Pending.released? := h.pending
  have hreleased := expanding_release hpending
  refine ⟨?_, hreleased⟩
  have hdistinct : d.expanding.Nodup := h.distinct
  rw [hpending] at hdistinct
  rw [hreleased]
  exact (List.nodup_cons.mp hdistinct).2

theorem filterMap_blocks (blocks : List Block) :
    (blocks.map Pending.block).filterMap Pending.released? = [] := by
  induction blocks with
  | nil => rfl
  | cons block rest ih => exact ih

theorem takeUp (h : Orderly ⟨d, todo⟩) (s : Statement) : Orderly (d.takeUp s todo) := by
  cases s with
  | conditional branches otherwise =>
    refine h.pass rfl ?_
    rw [List.filterMap_append, filterMap_blocks, List.nil_append]
  | call name =>
    simp only [DryRun.takeUp]
    split
    · exact h
    · rename_i body _
      split
      · exact h
      · rename_i hname
        exact h.begin (fun hmem => hname (List.contains_iff_mem.mpr hmem)) body
  | _ => exact h.pass rfl rfl

theorem step {c c' : Course} (h : c.Orderly) (hstep : c.step = some c') : c'.Orderly := by
  obtain ⟨d, todo⟩ := c
  obtain ⟨name, rest, rfl, rfl⟩ | ⟨rest, rfl, rfl⟩ | ⟨s, block, rest, rfl, rfl⟩ := step_cases hstep
  · exact h.release
  · exact h.pass rfl rfl
  · have hrest : Orderly ⟨d, .block block :: rest⟩ := h.pass rfl rfl
    exact hrest.takeUp s

theorem reaches {c c' : Course} (h : c.Orderly) (hreaches : Reaches c c') : c'.Orderly := by
  induction hreaches with
  | refl => exact h
  | tail _ hstep ih => exact ih.step hstep

end Orderly

/-! ### Exact times -/

def next? (c : Course) : Option Statement :=
  match c.todo with
  | .block (s :: _) :: _ => some s
  | _ => none

/-- The steps from one course to another take so many ticks, however large their number is, and
announce events at the given times. -/
inductive Timed (first : Course) : Nat → List Nat → Course → Prop
  | start : Timed first 0 [] first
  | onward {time : Nat} {times : List Nat} {c c' : Course} (h : Timed first time times c)
      (hnext : c.next? = none) (hstep : c.step = some c') : Timed first time times c'
  | statement {time : Nat} {times : List Nat} {c c' : Course} {s : Statement}
      (h : Timed first time times c) (hnext : c.next? = some s) (hstep : c.step = some c') :
      Timed first (time + s.duration c.run.env) (times ++ s.announcedAt time) c'

/-- Events are announced one after the other, and none is announced later than now. -/
theorem Timed.sorted {first c : Course} {time : Nat} {times : List Nat}
    (h : Timed first time times c) : times.Pairwise (· ≤ ·) ∧ ∀ t ∈ times, t ≤ time := by
  induction h with
  | start => exact ⟨.nil, nofun⟩
  | onward _ _ _ ih => exact ih
  | @statement time times c c' s _ _ _ ih =>
    obtain ⟨hsorted, hpast⟩ := ih
    have hnow : ∀ t ∈ s.announcedAt time, t = time := by
      cases s with
      | sync event => exact fun t ht => List.mem_singleton.mp ht
      | _ => exact nofun
    have hone : (s.announcedAt time).Pairwise (· ≤ ·) := by
      cases s with
      | sync event => exact List.pairwise_singleton _ _
      | _ => exact .nil
    refine ⟨List.pairwise_append.mpr ⟨hsorted, hone, fun t ht t' ht' => ?_⟩, fun t ht => ?_⟩
    · rw [hnow t' ht']
      exact hpast t ht
    · rcases List.mem_append.mp ht with ht | ht
      · exact Nat.le_add_right_of_le (hpast t ht)
      · rw [hnow t ht]
        exact Nat.le_add_right _ _

end Course

/-- The count of ticks and those of the events are what exact times wrap around to. -/
structure Clocked (time : Nat) (times : List Nat) (d : DryRun) : Prop where
  tick : d.tick = wrapUnsigned 64 time
  events : d.events.toList.map SyncEvent.tick = times.map (wrapUnsigned 64)

namespace Clocked

variable {time : Nat} {times : List Nat} {d : DryRun}

theorem elapse (h : Clocked time times d) (ticks : Nat) :
    Clocked (time + ticks) times (d.elapse ticks) := by
  refine ⟨?_, h.events⟩
  rw [DryRun.elapse, h.tick]
  exact Nat.mod_add_mod ..

theorem announce (h : Clocked time times d) (event : String) :
    Clocked (time + 1) (times ++ [time]) (d.announce event) := by
  refine ⟨(h.elapse 1).tick, ?_⟩
  rw [DryRun.announce, Array.toList_push, List.map_append, List.map_append, h.events]
  exact congrArg (fun tick => times.map (wrapUnsigned 64) ++ [tick]) h.tick

theorem takeUp (h : Clocked time times d) (s : Statement) (todo : List Pending) :
    Clocked (time + s.duration d.env) (times ++ s.announcedAt time) (d.takeUp s todo).run := by
  have hquiet := h.events.trans (congrArg (List.map (wrapUnsigned 64)) times.append_nil.symm)
  cases s with
  | sync event => exact h.announce event
  | call name =>
    cases hbody : d.sequences.find? name with
    | none =>
      rw [takeUp_of_undefined hbody]
      exact ⟨h.tick, hquiet⟩
    | some body =>
      by_cases hname : name ∈ d.expanding
      · rw [takeUp_of_expanding hname]
        exact ⟨h.tick, hquiet⟩
      · rw [takeUp_of_free hbody hname]
        exact ⟨h.tick, hquiet⟩
  | loop count body => exact ⟨h.tick, hquiet⟩
  | conditional branches otherwise => exact ⟨h.tick, hquiet⟩
  | segment name body => exact ⟨h.tick, hquiet⟩
  | define name body => exact ⟨h.tick, hquiet⟩
  | _ => exact ⟨(h.elapse _).tick, hquiet⟩

end Clocked

/-! ### The end of a dry run -/

/-- All sequences have names that are known and define no others, and so many calls may nest that all
names can be expanded. -/
structure Roomy (names : List String) (depth : Nat) (d : DryRun) : Prop where
  known : ∀ name body, d.sequences.find? name = some body →
    name ∈ names ∧ blockDefinitions body ⊆ names
  distinct : d.expanding.Nodup
  expanding : d.expanding ⊆ names
  depth : names.length ≤ depth + d.expanding.length

variable {names : List String} {depth : Nat} {d d' : DryRun}

theorem Roomy.of_same (h : Roomy names depth d) (hsequences : d'.sequences = d.sequences)
    (hexpanding : d'.expanding = d.expanding) : Roomy names depth d' := by
  refine ⟨?_, ?_, ?_, ?_⟩
  · rw [hsequences]
    exact h.known
  · rw [hexpanding]
    exact h.distinct
  · rw [hexpanding]
    exact h.expanding
  · rw [hexpanding]
    exact h.depth

theorem Roomy.define (h : Roomy names depth d) {name : String} {body : Block}
    (hname : name ∈ names) (hbody : blockDefinitions body ⊆ names) :
    Roomy names depth { d with sequences := d.sequences.insert name body } := by
  refine ⟨fun other block hfound => ?_, h.distinct, h.expanding, h.depth⟩
  rw [Table.find?_insert] at hfound
  split at hfound
  · rename_i heq
    cases hfound
    exact ⟨heq ▸ hname, hbody⟩
  · exact h.known other block hfound

/-- One more name is being expanded, so calls may nest one level less. -/
theorem Roomy.begin (h : Roomy names depth d) {name : String} {body : Block}
    (hbody : d.sequences.find? name = some body) (hname : name ∉ d.expanding) :
    ∃ below, depth = below + 1 ∧ Roomy names below (d.begin name) := by
  have hdistinct : (name :: d.expanding).Nodup := List.nodup_cons.mpr ⟨hname, h.distinct⟩
  have hsubset : name :: d.expanding ⊆ names :=
    List.cons_subset.mpr ⟨(h.known name body hbody).1, h.expanding⟩
  have hroom := (hdistinct.subperm hsubset).length_le
  have hdepth := h.depth
  rw [List.length_cons] at hroom
  refine ⟨depth - 1, by omega, h.known, hdistinct, hsubset, ?_⟩
  change names.length ≤ depth - 1 + (d.expanding.length + 1)
  omega

/-- One level more is left when the latest name is released. -/
theorem Roomy.release {name : String} {expanding : List String} (h : Roomy names depth d)
    (hexpanding : d.expanding = name :: expanding) : Roomy names (depth + 1) (d.release name) := by
  have hreleased := expanding_release hexpanding
  have hdistinct := h.distinct
  have hsubset := h.expanding
  have hdepth := h.depth
  rw [hexpanding] at hdistinct hsubset hdepth
  refine ⟨h.known, ?_, ?_, ?_⟩
  · rw [hreleased]
    exact (List.nodup_cons.mp hdistinct).2
  · rw [hreleased]
    exact (List.cons_subset.mp hsubset).2
  · rw [hreleased]
    rw [List.length_cons] at hdepth
    omega

/-- What is begun before the rest of a dry run comes to its end, and the rest goes on from there. -/
structure Does (names : List String) (depth : Nat) (d : DryRun) (begun : List Pending → Course)
    (d' : DryRun) : Prop where
  reaches : ∀ todo, Course.Reaches (begun todo) ⟨d', todo⟩
  roomy : Roomy names depth d'
  expanding : d'.expanding = d.expanding

namespace Does

variable {d₁ d₂ d₃ : DryRun} {begun : List Pending → Course}

theorem trans (h₁ : Does names depth d₁ begun d₂) (second : List Pending)
    (h₂ : Does names depth d₂ (fun todo => ⟨d₂, second ++ todo⟩) d₃) :
    Does names depth d₁ (fun todo => begun (second ++ todo)) d₃ where
  reaches todo := (h₁.reaches _).trans (h₂.reaches todo)
  roomy := h₂.roomy
  expanding := h₂.expanding.trans h₁.expanding

/-- What is begun may be preceded by a step. -/
theorem of_step {before : List Pending → Course} (h : Does names depth d₁ begun d₂)
    (hstep : ∀ todo, (before todo).step = some (begun todo)) : Does names depth d₁ before d₂ :=
  ⟨fun todo => .head (hstep todo) (h.reaches todo), h.roomy, h.expanding⟩

theorem refl (h : Roomy names depth d) : Does names depth d (Course.mk d) d :=
  ⟨fun _ => .refl, h, rfl⟩

end Does

def Finishes (names : List String) (depth : Nat) (expand : Block → DryRun → DryRun) : Prop :=
  ∀ (d : DryRun) (name : String) (body : Block), Roomy names depth d →
    d.sequences.find? name = some body → name ∉ d.expanding →
    ∃ below, depth = below + 1 ∧ Does names below (d.begin name)
      (fun todo => ⟨d.begin name, .block body :: todo⟩) (expand body (d.begin name))

section
variable {expand : Block → DryRun → DryRun}

theorem does_call (hexpand : Finishes names depth expand) (name : String)
    (hd : Roomy names depth d) :
    Does names depth d (d.takeUp (.call name)) (visitStatement expand (.call name) d) := by
  cases hbody : d.sequences.find? name with
  | none =>
    rw [takeUp_of_undefined hbody]
    simp only [visitStatement, hbody]
    exact .refl hd
  | some body =>
    by_cases hname : name ∈ d.expanding
    · rw [takeUp_of_expanding hname]
      simp only [visitStatement, hbody, List.contains_iff_mem.mpr hname, if_true]
      exact .refl hd
    · obtain ⟨below, rfl, hdoes⟩ := hexpand d name body hd hbody hname
      have hexpanding : (expand body (d.begin name)).expanding = name :: d.expanding :=
        hdoes.expanding
      have hreleased : (expand body (d.begin name)).release name =
          visitStatement expand (.call name) d := by
        simp only [visitStatement, hbody, List.contains_iff_mem, hname, if_false]
        rw [release, hexpanding, List.erase_cons_head]
        rfl
      rw [← hreleased]
      refine ⟨fun todo => ?_, hdoes.roomy.release hexpanding, ?_⟩
      · rw [takeUp_of_free hbody hname]
        exact (hdoes.reaches (.release name :: todo)).tail rfl
      · exact expanding_release hexpanding

-- The recursion is that of the visit.
mutual

theorem does_visitStatement (hexpand : Finishes names depth expand) (s : Statement) {d : DryRun}
    (hd : Roomy names depth d) (hs : s.definitions ⊆ names) :
    Does names depth d (d.takeUp s) (visitStatement expand s d) := by
  cases s with
  | call name => exact does_call hexpand name hd
  | loop count body => exact does_visitBlock hexpand body hd hs
  | segment name body => exact does_visitBlock hexpand body hd hs
  | conditional branches otherwise =>
    rw [definitions, List.append_subset] at hs
    have hbranches := does_visitBranches hexpand branches hd hs.1
    have hotherwise := does_visitBlock hexpand otherwise hbranches.roomy hs.2
    have hboth := hbranches.trans [.block otherwise] hotherwise
    refine ⟨fun todo => ?_, hboth.roomy, hboth.expanding⟩
    rw [takeUp, arms, List.map_append, List.append_assoc]
    exact hboth.reaches todo
  | define name body =>
    rw [definitions, List.cons_subset] at hs
    have hdefined : Roomy names depth _ := hd.define hs.1 hs.2
    exact ⟨fun _ => .refl, hdefined, rfl⟩
  | _ => exact ⟨fun _ => .refl, hd.of_same rfl rfl, rfl⟩

theorem does_visitBlock (hexpand : Finishes names depth expand) (block : List Statement)
    {d : DryRun} (hd : Roomy names depth d) (hblock : blockDefinitions block ⊆ names) :
    Does names depth d (fun todo => ⟨d, .block block :: todo⟩) (visitBlock expand block d) := by
  cases block with
  | nil => exact (Does.refl hd).of_step fun _ => rfl
  | cons s rest =>
    rw [blockDefinitions, List.append_subset] at hblock
    have hfirst := does_visitStatement hexpand s hd hblock.1
    have hrest := does_visitBlock hexpand rest hfirst.roomy hblock.2
    exact (hfirst.trans [.block rest] hrest).of_step fun _ => rfl

theorem does_visitBranches (hexpand : Finishes names depth expand) (branches : List Branch)
    {d : DryRun} (hd : Roomy names depth d) (hbranches : branchDefinitions branches ⊆ names) :
    Does names depth d (fun todo => ⟨d, (branches.map Branch.body).map .block ++ todo⟩)
      (visitBranches expand branches d) := by
  cases branches with
  | nil => exact .refl hd
  | cons b rest =>
    obtain ⟨condition, body⟩ := b
    rw [branchDefinitions, List.append_subset] at hbranches
    have hfirst := does_visitBlock hexpand body hd hbranches.1
    exact hfirst.trans _ (does_visitBranches hexpand rest hfirst.roomy hbranches.2)

end

end

theorem finishes_expandAt (names : List String) (depth : Nat) :
    Finishes names depth (expandAt depth) := by
  induction depth with
  | zero =>
    intro d name body hd hbody hname
    obtain ⟨below, hbelow, -⟩ := hd.begin hbody hname
    omega
  | succ depth ih =>
    intro d name body hd hbody hname
    obtain ⟨below, hbelow, hroomy⟩ := hd.begin hbody hname
    cases hbelow
    refine ⟨depth, rfl, ?_⟩
    rw [expandAt, visit_eq]
    exact does_visitBlock ih body hroomy (hd.known name body hbody).2

/-- A dry run ends with what the bounded visit finds. -/
theorem Course.reaches_of (program : Program) (env : Env) :
    Reaches (start program env) ⟨DryRun.of program env, []⟩ := by
  have hroomy : Roomy (blockDefinitions program.statements)
      (blockDefinitionCount program.statements) (DryRun.start env) := by
    refine ⟨nofun, .nil, List.nil_subset _, ?_⟩
    rw [length_blockDefinitions]
    exact Nat.le_add_right _ _
  have hdoes := does_visitBlock (finishes_expandAt _ _) program.statements hroomy
    (List.Subset.refl _)
  rw [DryRun.of, visit_eq]
  exact hdoes.reaches []

theorem Course.eq_of_last {program : Program} {env : Env} {c : Course}
    (h : Reaches (start program env) c) (hlast : c.step = none) :
    c = ⟨DryRun.of program env, []⟩ := by
  have hend := h.to_last hlast (reaches_of program env)
  rcases hend.cases_head with heq | ⟨next, hnext, -⟩
  · exact heq.symm
  · cases hnext

end DryRun

namespace Performance
open DryRun

end Performance
end Choreography
