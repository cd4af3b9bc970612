import Choreography.Proofs.Places
import Choreography.Proofs.StackMoves
import Choreography.Proofs.Waiting

/-! # Statements of a program and of its runs

A run executes only statements of the program, each at its site. Outside of all loops in the text
of the program no loop is open: a sequence may be called from anywhere, but then its statements
count as inside a loop. -/
namespace Choreography
namespace Machine
open Statement

variable {settings : EngineSettings} {limit depth : Nat} {m m' : Machine} {site : Site}
  {s : Statement} {places : List Place}

/-- The open blocks stand at their sites, and none of those outside of all loops in the text is open
inside a loop. -/
inductive Laid (places : List Place) : List Activation → Prop
  | nil : Laid places []
  | cons {a : Activation} {below : List Activation} (depth : Nat)
      (hblock : blockPlaces a.site depth 0 a.block ⊆ places)
      (hfree : depth = 0 → (a :: below).any Activation.isLoop = false)
      (hbelow : Laid places below) : Laid places (a :: below)

namespace Laid

variable {top : Activation} {below : List Activation}

theorem tail (h : Laid places (top :: below)) : Laid places below := by
  cases h with
  | cons depth hblock hfree hbelow => exact hbelow

theorem reindex (h : Laid places (top :: below)) (i : Nat) :
    Laid places ({ top with index := i } :: below) := by
  cases h with
  | cons depth hblock hfree hbelow => exact .cons depth hblock hfree hbelow

theorem unwindTo {resume : Activation → List Activation → List Activation}
    (hresume : resume = leaveLoop ∨ resume = endPass) {stack : List Activation}
    (h : Laid places stack) (r : Recorder) : Laid places (unwindTo resume stack r).1 := by
  induction stack generalizing r with
  | nil => exact .nil
  | cons a below ih =>
    rw [Machine.unwindTo]
    split
    · rcases hresume with rfl | rfl
      · exact h.tail
      · exact h.reindex _
    · exact ih h.tail _

/-- The next statement of the innermost block has its place. -/
theorem next (h : Laid places (top :: below)) (hs : top.block[top.index]? = some s) :
    ∃ depth, s.places (top.index :: top.site) depth ⊆ places ∧
      (depth = 0 → (top :: below).any Activation.isLoop = false) := by
  cases h with
  | cons depth hblock hfree hbelow =>
    have hplaces : s.places ((0 + top.index) :: top.site) depth ⊆
        blockPlaces top.site depth 0 top.block := places_subset_block 0 hs
    rw [Nat.zero_add] at hplaces
    exact ⟨depth, List.Subset.trans hplaces hblock, hfree⟩

end Laid

/-- The open blocks stand at their sites, and so do the sequences, which count as inside a loop. -/
structure Charted (places : List Place) (c : Control) : Prop where
  laid : Laid places c.stack
  body : ∀ name q, c.sequences.find? name = some q →
    ∃ depth, depth ≠ 0 ∧ blockPlaces q.site depth 0 q.body ⊆ places
  defined : ∀ name q, c.sequences.find? name = some q →
    ∃ place ∈ places, place.statement = .define name q.body

/-- A block that a statement opens is inside as many loops as the statement, or it is the body of a
sequence. -/
theorem Charted.opens {inner : Site} {block : Block} (h : Charted places m.control)
    (hs : s.places site depth ⊆ places) (hopens : Opens m.sequences site s inner block) :
    ∃ depth', blockPlaces inner depth' 0 block ⊆ places ∧ (depth' = 0 → depth = 0) := by
  cases hopens with
  | segment => exact ⟨depth, List.Subset.trans (List.subset_cons_self _ _) hs, id⟩
  | arm harm => exact ⟨depth, List.Subset.trans (blockPlaces_subset_arm harm) hs, id⟩
  | @call name q hq =>
    obtain ⟨depth', hdepth, hplaces⟩ := h.body name q hq
    exact ⟨depth', hplaces, fun hzero => absurd hzero hdepth⟩

theorem charted_executed {c : Control} (h : Charted places m.control)
    (hs : s.places site depth ⊆ places)
    (hfree : depth = 0 → m.stack.any Activation.isLoop = false)
    (hexecuted : Executed settings m site s c) : Charted places c := by
  cases hexecuted with
  | done => exact h
  | @defined name body hdefine =>
    subst hdefine
    refine ⟨h.laid, fun other q hq => ?_, fun other q hq => ?_⟩ <;>
      rw [Table.find?_insert] at hq <;> split at hq
    · cases hq
      exact ⟨max depth 1, by omega, List.Subset.trans (List.subset_cons_self _ _) hs⟩
    · exact h.body other q hq
    · rename_i hname
      cases hq
      exact ⟨_, hs (mem_places_self site depth _), by rw [hname]⟩
    · exact h.defined other q hq
  | @entered a hopens hkind =>
    obtain ⟨depth', hplaces, hdepth⟩ := h.opens hs hopens
    refine ⟨.cons depth' hplaces (fun hzero => ?_) h.laid, h.body, h.defined⟩
    rw [List.any_cons, hkind, hfree (hdepth hzero), Bool.or_false]
  | looped hloop =>
    subst hloop
    have hplaces := List.Subset.trans (List.subset_cons_self _ _) hs
    exact ⟨.cons (depth + 1) hplaces (fun hzero => absurd hzero (Nat.succ_ne_zero _)) h.laid,
      h.body, h.defined⟩
  | unwound hresume => exact ⟨h.laid.unwindTo hresume _, h.body, h.defined⟩

theorem charted_advance (h : Charted places m.control)
    (hadvance : m.advance settings limit = .running m') : Charted places m'.control := by
  obtain ⟨top, below, hstack, hturned⟩ := turned_of_advance hadvance
  have hlaid : Laid places (top :: below) := by
    rw [← hstack]
    exact h.laid
  generalize m'.control = c at hturned ⊢
  cases hturned with
  | executed hs hexecuted =>
    obtain ⟨depth, hplaces, hfree⟩ := hlaid.next hs
    have hfetched : Charted places (m.fetch top below).control :=
      ⟨hlaid.reindex _, h.body, h.defined⟩
    exact charted_executed hfetched hplaces hfree hexecuted
  | left => exact ⟨hlaid.tail, h.body, h.defined⟩
  | @passed _ _ again =>
    cases again with
    | false => exact ⟨hlaid.tail, h.body, h.defined⟩
    | true => exact ⟨hlaid.reindex 0, h.body, h.defined⟩

theorem charted_reaches (h : Charted places m.control) (hreaches : Reaches settings limit m m') :
    Charted places m'.control := by
  induction hreaches with
  | refl => exact h
  | tail _ hstep ih => exact charted_advance ih hstep

/-- What is executed next is a statement of the program. -/
theorem Charted.next {P : Statement → Prop} (h : Charted places m.control)
    (hP : ∀ place ∈ places, P place.statement) : m.Next P := by
  intro top below s hstack hs
  have hlaid : Laid places (top :: below) := by
    rw [← hstack]
    exact h.laid
  obtain ⟨depth, hplaces, -⟩ := hlaid.next hs
  exact hP _ (hplaces (mem_places_self _ depth s))

theorem charted_start (p : Program) (r : Recorder) : Charted p.places (start p r).control := by
  refine ⟨.cons 0 (List.Subset.refl _) (fun _ => rfl) .nil, fun name q hq => ?_, fun name q hq => ?_⟩
  · cases hq
  · cases hq

def nextSite? (m : Machine) : Option Site := m.stack.head?.map fun top => top.index :: top.site

end Machine

namespace Performance
open Machine

variable {p : Performance} {maxSteps : Option Nat} {m : Machine} {s : Statement}

theorem Executing.charted (h : p.Executing maxSteps m s) : Charted p.program.places m.control :=
  charted_reaches (charted_start p.program p.recorder) h.reached

/-- A statement that a run executes has a place in the program. If it is outside of all loops there,
no loop is open. -/
theorem Executing.place (h : p.Executing maxSteps m s) :
    ∃ depth site, m.nextSite? = some site ∧ ⟨site, depth, s⟩ ∈ p.program.places ∧
      (depth = 0 → m.stack.any Activation.isLoop = false) := by
  obtain ⟨top, below, hstack, hs, -, -⟩ := h.next
  have hlaid : Laid p.program.places (top :: below) := by
    rw [← hstack]
    exact h.charted.laid
  obtain ⟨depth, hplaces, hfree⟩ := hlaid.next hs
  refine ⟨depth, top.index :: top.site, ?_, hplaces (Statement.mem_places_self _ depth s), ?_⟩
  · rw [nextSite?, hstack]
    rfl
  · rw [hstack]
    exact hfree

/-- The statement that is executed next is the one at the next site. -/
theorem Executing.eq_place (h : p.Executing maxSteps m s) {place : Place}
    (hplace : place ∈ p.program.places) (hsite : m.nextSite? = some place.site) :
    place.statement = s ∧ (place.depth = 0 → m.stack.any Activation.isLoop = false) := by
  obtain ⟨depth, site, hnext, hmem, hfree⟩ := h.place
  have hsame : place.site = site := Option.some.inj (hsite.symm.trans hnext)
  have heq : place = ⟨site, depth, s⟩ :=
    List.inj_on_of_nodup_map p.program.nodup_sites hplace hmem hsame
  subst heq
  exact ⟨rfl, hfree⟩

/-- What holds of every statement of the program holds of what a run executes. -/
theorem Executing.holds {P : Statement → Bool} (h : p.Executing maxSteps m s)
    (hp : (p.program.places.all fun place => P place.statement) = true) : P s = true := by
  obtain ⟨depth, site, -, hplace, -⟩ := h.place
  exact List.all_eq_true.mp hp _ hplace

end Performance
end Choreography
