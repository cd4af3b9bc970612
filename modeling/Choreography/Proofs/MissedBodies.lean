import Choreography.Proofs.Expansions
import Choreography.Proofs.Findings
import Choreography.Proofs.Occurrences

/-! # Bodies that a dry run misses

Wherever a program defines its sequences, a run gets only to blocks that the dry run visits, until it
calls a sequence that the dry run misses: the call is visited, and so is the definition in force, but
where the dry run comes to the call, the name is not defined yet, or it is defined otherwise or being
expanded. So nothing else can be missing from what is found without a run. -/
namespace Choreography
namespace DryRun
open Statement

/-! ### Visited blocks -/

theorem finds_takeUp {d : DryRun} {t : Statement} (ht : d.Finds t) (s : Statement)
    (todo : List Pending) : (d.takeUp s todo).run.Finds t := by
  have hvisited : (visitStatement (fun _ d => d) s d).Finds t :=
    (grows_visitStatement (fun _ => Grows.refl) s d).finds ht
  cases s with
  | call name =>
    cases hbody : d.sequences.find? name with
    | none =>
      rw [takeUp_of_undefined hbody]
      exact ht
    | some body =>
      by_cases hname : name ∈ d.expanding
      · rw [takeUp_of_expanding hname]
        exact ht
      · rw [takeUp_of_free hbody hname]
        -- No kind of statement looks at the names that are being expanded.
        cases t <;> exact ht
  | loop count body => exact ht
  | segment name body => exact ht
  | conditional branches otherwise => exact ht
  | _ => exact hvisited

theorem finds_self (d : DryRun) (s : Statement) (todo : List Pending) :
    (d.takeUp s todo).run.Finds s := by
  cases s with
  | sync event => simp [takeUp, Finds, visitStatement, announce]
  | waitFor event maxTicks => exact (Table.contains_add ..).mpr (.inl rfl)
  | _ => trivial

namespace Course

theorem finds_step {c c' : Course} (hstep : c.step = some c') {t : Statement}
    (ht : c.run.Finds t) : c'.run.Finds t := by
  obtain ⟨d, todo⟩ := c
  obtain ⟨name, rest, rfl, rfl⟩ | ⟨rest, rfl, rfl⟩ | ⟨s, block, rest, rfl, rfl⟩ := step_cases hstep
  · cases t <;> exact ht
  · exact ht
  · exact finds_takeUp ht s _

theorem finds_reaches {c c' : Course} (hreaches : Reaches c c') {t : Statement}
    (ht : c.run.Finds t) : c'.run.Finds t := by
  induction hreaches with
  | refl => exact ht
  | tail _ hstep ih => exact finds_step hstep ih

/-- The dry run of a program comes to a block, or to the rest of one. -/
def Visits (program : Program) (env : Env) (block : Block) : Prop :=
  ∃ d todo, Reaches (start program env) ⟨d, .block block :: todo⟩

variable {program : Program} {env : Env} {s : Statement} {block rest : Block}

theorem visits_statements (program : Program) (env : Env) :
    Visits program env program.statements := ⟨_, [], .refl⟩

/-- Whatever is left to do is done some time. -/
theorem Reaches.visits {c : Course} (h : Reaches (start program env) c)
    (hblock : .block block ∈ c.todo) : Visits program env block := by
  obtain ⟨d, todo⟩ := c
  obtain ⟨before, after, rfl⟩ := List.append_of_mem hblock
  have hend := (reaches_of program env).to_last rfl h
  obtain ⟨d', hpassed⟩ := hend.passes rfl
  exact ⟨d', after, h.trans hpassed⟩

theorem Visits.exists_takeUp (h : Visits program env (s :: rest)) :
    ∃ (d : DryRun) (todo : List Pending),
      Reaches (start program env) (d.takeUp s (.block rest :: todo)) := by
  obtain ⟨d, todo, hreaches⟩ := h
  exact ⟨d, todo, hreaches.tail rfl⟩

theorem Visits.tail (h : Visits program env (s :: rest)) : Visits program env rest := by
  obtain ⟨d, todo, hreaches⟩ := h.exists_takeUp
  obtain ⟨d', begun, hbegun⟩ := d.exists_takeUp_eq s
  rw [hbegun] at hreaches
  exact hreaches.visits (List.mem_append_right begun List.mem_cons_self)

theorem Visits.drop (h : Visits program env block) (i : Nat) : Visits program env (block.drop i) := by
  induction i generalizing block with
  | zero => exact h
  | succ i ih =>
    cases block with
    | nil => exact h
    | cons s rest => exact ih h.tail

theorem Visits.at (h : Visits program env block) {i : Nat} (hs : block[i]? = some s) :
    ∃ rest, Visits program env (s :: rest) := by
  obtain ⟨hlt, rfl⟩ := List.getElem?_eq_some_iff.mp hs
  refine ⟨block.drop (i + 1), ?_⟩
  rw [← List.drop_eq_getElem_cons hlt]
  exact h.drop i

theorem Visits.inside (h : Visits program env (s :: rest)) (hblock : block ∈ s.blocks) :
    Visits program env block := by
  obtain ⟨d, todo, hreaches⟩ := h.exists_takeUp
  cases s with
  | loop count body =>
    rw [List.mem_singleton.mp hblock]
    exact hreaches.visits List.mem_cons_self
  | segment name body =>
    rw [List.mem_singleton.mp hblock]
    exact hreaches.visits List.mem_cons_self
  | conditional branches otherwise =>
    exact hreaches.visits (List.mem_append_left _ (List.mem_map_of_mem hblock))
  | _ => cases hblock

/-- What is visited is found in the end. -/
theorem Visits.finds (h : Visits program env (s :: rest)) : (DryRun.of program env).Finds s := by
  obtain ⟨d, todo, hreaches⟩ := h.exists_takeUp
  have hend := (reaches_of program env).to_last rfl hreaches
  exact finds_reaches hend (finds_self d s _)

end Course
end DryRun

namespace Machine
open DryRun.Course

variable {program : Program} {env : Env} {settings : EngineSettings} {limit : Nat} {m m' : Machine}
  {site : Site} {s : Statement} {rest : Block}

/-- The dry run visits the open blocks of a run, and the definitions that are in force. -/
structure Seen (program : Program) (env : Env) (c : Control) : Prop where
  blocks : ∀ a ∈ c.stack, Visits program env a.block
  defined : ∀ name q, c.sequences.find? name = some q →
    ∃ rest, Visits program env (.define name q.body :: rest)

/-- The dry run visits a call and a definition that the call may refer to, but not the body. -/
structure Missed (program : Program) (env : Env) (name : String) (body : Block) : Prop where
  called : ∃ rest, Visits program env (.call name :: rest)
  defined : ∃ rest, Visits program env (.define name body :: rest)
  unvisited : ¬ Visits program env body

theorem Seen.push {c : Control} (h : Seen program env c) {a : Activation}
    (ha : Visits program env a.block) (counters : List (Site × Int)) :
    Seen program env ⟨a :: c.stack, counters, c.sequences⟩ where
  blocks b hb := by
    rcases List.mem_cons.mp hb with rfl | hb
    · exact ha
    · exact h.blocks b hb
  defined := h.defined

theorem seen_executed {c : Control} (h : Seen program env m.control)
    (hs : Visits program env (s :: rest)) (hexecuted : Executed settings m site s c) :
    Seen program env c ∨ ∃ name q, s = .call name ∧ m.sequences.find? name = some q ∧
      Missed program env name q.body := by
  cases hexecuted with
  | done => exact .inl h
  | @defined name body hdefine =>
    subst hdefine
    refine .inl ⟨h.blocks, fun other q hq => ?_⟩
    rw [Table.find?_insert] at hq
    split at hq
    · rename_i hsame
      cases hq
      rw [hsame]
      exact ⟨rest, hs⟩
    · exact h.defined other q hq
  | @entered a hopens _ =>
    obtain ⟨place, block, index, kind⟩ := a
    cases hopens with
    | segment name => exact .inl (h.push (hs.inside (List.mem_singleton_self _)) _)
    | arm harm => exact .inl (h.push (hs.inside (List.mem_of_getElem? harm)) _)
    | @call name q hq =>
      by_cases hbody : Visits program env q.body
      · exact .inl (h.push hbody _)
      · exact .inr ⟨name, q, rfl, hq, ⟨rest, hs⟩, h.defined name q hq, hbody⟩
  | looped hloop =>
    subst hloop
    exact .inl (h.push (hs.inside (List.mem_singleton_self _)) _)
  | unwound hresume =>
    refine .inl ⟨fun a ha => ?_, h.defined⟩
    obtain ⟨b, hb, hblock, -⟩ := mem_unwindTo hresume ha
    rw [hblock]
    exact h.blocks b hb

theorem seen_advance (h : Seen program env m.control)
    (hadvance : m.advance settings limit = .running m') :
    Seen program env m'.control ∨ ∃ name q, m.AtStatement limit (.call name) ∧
      m.sequences.find? name = some q ∧ Missed program env name q.body := by
  obtain ⟨top, below, hstack, hsteps, hroom, hturn⟩ := turn_of_advance hadvance
  have hturned := turned_of_turn hturn
  have hblocks := h.blocks
  change ∀ a ∈ m.stack, _ at hblocks
  rw [hstack] at hblocks
  have htop := hblocks top List.mem_cons_self
  have hbelow : ∀ a ∈ below, Visits program env a.block :=
    fun a ha => hblocks a (List.mem_cons_of_mem top ha)
  have hreindexed : ∀ i, ∀ a ∈ ({ top with index := i } : Activation) :: below,
      Visits program env a.block := by
    intro i a ha
    rcases List.mem_cons.mp ha with rfl | ha
    · exact htop
    · exact hbelow a ha
  generalize m'.control = c at hturned ⊢
  cases hturned with
  | @executed s _ hs hexecuted =>
    obtain ⟨rest, hvisits⟩ := htop.at hs
    have hfetched : Seen program env (m.fetch top below).control := ⟨hreindexed _, h.defined⟩
    rcases seen_executed hfetched hvisits hexecuted with hseen | ⟨name, q, rfl, hq, hmissed⟩
    · exact .inl hseen
    · exact .inr ⟨name, q, ⟨top, below, hstack, hs, hsteps, hroom⟩, hq, hmissed⟩
  | left => exact .inl ⟨hbelow, h.defined⟩
  | @passed _ _ again =>
    cases again with
    | false => exact .inl ⟨hbelow, h.defined⟩
    | true => exact .inl ⟨hreindexed 0, h.defined⟩

theorem seen_start (program : Program) (env : Env) (r : Recorder) :
    Seen program env (start program r).control where
  blocks a ha := by
    rw [List.mem_singleton.mp ha]
    exact visits_statements program env
  defined name q hq := by cases hq

end Machine

namespace Performance
open Machine

variable {p : Performance} {maxSteps : Option Nat} {m : Machine} {s : Statement}

/-- A run calls a sequence whose body the dry run misses. -/
def CallsMissed (p : Performance) (maxSteps : Option Nat) (env : Env) : Prop :=
  ∃ m name q, p.Executing maxSteps m (.call name) ∧ m.sequences.find? name = some q ∧
    Missed p.program env name q.body

theorem seen_or_missed (env : Env)
    (hreaches : Reaches p.settings (p.limit maxSteps) (.start p.program p.recorder) m) :
    Seen p.program env m.control ∨ p.CallsMissed maxSteps env := by
  -- After a missed sequence has been called nothing more is known of the blocks that are open.
  induction hreaches with
  | refl => exact .inl (seen_start p.program env p.recorder)
  | tail hreaches hstep ih =>
    rcases ih with hseen | hmissed
    · rcases seen_advance hseen hstep with hseen' | ⟨name, q, hcall, hq, hmissed⟩
      · exact .inl hseen'
      · exact .inr ⟨_, name, q, ⟨hreaches, hcall⟩, hq, hmissed⟩
    · exact .inr hmissed

theorem Executing.found_or_missed (h : p.Executing maxSteps m s) (env : Env) :
    (DryRun.of p.program env).Finds s ∨ p.CallsMissed maxSteps env := by
  rcases seen_or_missed env h.reached with hseen | hmissed
  · obtain ⟨top, below, hstack, hs, -⟩ := h.next
    have htop : top ∈ m.stack := by
      rw [hstack]
      exact List.mem_cons_self
    obtain ⟨rest, hvisits⟩ := (hseen.blocks top htop).at hs
    exact .inl hvisits.finds
  · exact .inr hmissed

/-- Whatever a run announces and waits for has been found without it, unless the run calls a sequence
whose body the dry run misses. -/
theorem found_unless_missed (p : Performance) (maxSteps : Option Nat) :
    ((∀ e ∈ (p.perform maxSteps).timeline.syncs,
      ∃ estimate ∈ p.syncEvents.value, estimate.name = e.name) ∨ p.CallsMissed maxSteps p.env) ∧
    ((∀ m event maxTicks, p.Executing maxSteps m (.waitFor event maxTicks) →
      p.waitingFor.value.contains event = true) ∨ p.CallsMissed maxSteps p.unplaced.env) := by
  refine ⟨or_iff_not_imp_right.mpr fun hmissed e he => ?_,
    or_iff_not_imp_right.mpr fun hmissed m event maxTicks h =>
      (h.found_or_missed p.unplaced.env).resolve_right hmissed⟩
  obtain ⟨m, hm⟩ := exists_executing_sync he
  exact List.mem_map.mp ((hm.found_or_missed p.env).resolve_right hmissed)

/-- Nothing is missed if the dry run visits the body of each definition of a program. -/
theorem found_of_visits (p : Performance) (maxSteps : Option Nat)
    (hvisits : ∀ env, ∀ place ∈ p.program.places, ∀ name body,
      place.statement = .define name body → DryRun.Course.Visits p.program env body) :
    (∀ e ∈ (p.perform maxSteps).timeline.syncs,
      ∃ estimate ∈ p.syncEvents.value, estimate.name = e.name) ∧
    ∀ m event maxTicks, p.Executing maxSteps m (.waitFor event maxTicks) →
      p.waitingFor.value.contains event = true := by
  have hnone : ∀ env, ¬ p.CallsMissed maxSteps env := by
    rintro env ⟨m, name, q, hcall, hq, hmissed⟩
    obtain ⟨place, hplace, hdefine⟩ := hcall.charted.defined name q hq
    exact hmissed.unvisited (hvisits env place hplace name q.body hdefine)
  obtain ⟨hannounced, hawaited⟩ := found_unless_missed p maxSteps
  exact ⟨hannounced.resolve_right (hnone _), hawaited.resolve_right (hnone _)⟩

/-- A sequence that a branch in a loop defines before it is called. -/
example :
    let p := playing [.repeated (.int 2) [
      .conditional [.mk (.variable "early") [.define "later" [.sync "go"]]] [],
      .call "later"]]
    ∀ e ∈ (p.perform none).timeline.syncs, ∃ estimate ∈ p.syncEvents.value, estimate.name = e.name := by
  intro p
  refine (found_of_visits p none fun env place hplace name body hdefine => ?_).1
  have hbody : body = [.sync "go"] := by
    fin_cases hplace <;> cases hdefine
    rfl
  subst hbody
  exact ⟨_, _, .head rfl (.head rfl (.head rfl (.head rfl (.head rfl (.head rfl .refl)))))⟩

end Performance
end Choreography
