import Choreography.Proofs.CallGraph
import Mathlib.Data.List.Nodup

/-! # Places of a program

The statements of a program in the order of its text, each with its site and the number of loops
around it. A site tells the statements apart. -/
namespace Choreography

/-- A statement in the tree of a program: where it is, and inside how many loops. -/
structure Place where
  site : Site
  depth : Nat
  statement : Statement

namespace Statement

mutual

/-- A statement at a site and all that stand in it. The body of a sequence counts as inside a loop,
and the arms of a conditional are told apart by their index. -/
def places (site : Site) (depth : Nat) : Statement → List Place
  | .loop count body => ⟨site, depth, .loop count body⟩ :: blockPlaces site (depth + 1) 0 body
  | .conditional branches otherwise =>
      ⟨site, depth, .conditional branches otherwise⟩ ::
        (branchPlaces site depth 0 branches ++
          blockPlaces (branches.length :: site) depth 0 otherwise)
  | .define name body => ⟨site, depth, .define name body⟩ :: blockPlaces site (max depth 1) 0 body
  | .segment name body => ⟨site, depth, .segment name body⟩ :: blockPlaces site depth 0 body
  | s => [⟨site, depth, s⟩]

/-- The places of the block at a site, whose first statement has index `i`. -/
def blockPlaces (site : Site) (depth i : Nat) : List Statement → List Place
  | [] => []
  | s :: rest => s.places (i :: site) depth ++ blockPlaces site depth (i + 1) rest

def branchPlaces (site : Site) (depth j : Nat) : List Branch → List Place
  | [] => []
  | .mk _ body :: rest =>
      blockPlaces (j :: site) depth 0 body ++ branchPlaces site depth (j + 1) rest

end

variable {site : Site} {depth : Nat} {s : Statement}

theorem places_eq_cons (site : Site) (depth : Nat) (s : Statement) :
    s.places site depth = ⟨site, depth, s⟩ :: (s.places site depth).tail := by
  cases s <;> rfl

theorem mem_places_self (site : Site) (depth : Nat) (s : Statement) :
    ⟨site, depth, s⟩ ∈ s.places site depth := by
  rw [places_eq_cons]
  exact List.mem_cons_self

theorem places_subset_block {block : Block} {i : Nat} (k : Nat) (h : block[i]? = some s) :
    s.places ((k + i) :: site) depth ⊆ blockPlaces site depth k block := by
  induction block generalizing i k with
  | nil => cases h
  | cons t rest ih =>
    rw [blockPlaces]
    cases i with
    | zero =>
      cases h
      exact List.subset_append_left _ _
    | succ i =>
      have hrest := ih (k + 1) h
      rw [Nat.add_right_comm k 1 i] at hrest
      exact List.subset_append_of_subset_right _ hrest

theorem blockPlaces_subset_branch {branches : List Branch} {b : Branch} {j : Nat} (k : Nat)
    (h : branches[j]? = some b) :
    blockPlaces ((k + j) :: site) depth 0 b.body ⊆ branchPlaces site depth k branches := by
  induction branches generalizing j k with
  | nil => cases h
  | cons c rest ih =>
    obtain ⟨condition, body⟩ := c
    rw [branchPlaces]
    cases j with
    | zero =>
      cases h
      exact List.subset_append_left _ _
    | succ j =>
      have hrest := ih (k + 1) h
      rw [Nat.add_right_comm k 1 j] at hrest
      exact List.subset_append_of_subset_right _ hrest

theorem blockPlaces_subset_arm {branches : List Branch} {otherwise arm : Block} {j : Nat}
    (h : (arms branches otherwise)[j]? = some arm) :
    blockPlaces (j :: site) depth 0 arm ⊆
      (Statement.conditional branches otherwise).places site depth := by
  apply List.subset_cons_of_subset
  by_cases hj : j < branches.length
  · rw [arms, List.getElem?_append_left (by simpa using hj), List.getElem?_map,
      Option.map_eq_some_iff] at h
    obtain ⟨b, hb, rfl⟩ := h
    have hbranch : blockPlaces ((0 + j) :: site) depth 0 b.body ⊆ branchPlaces site depth 0 branches :=
      blockPlaces_subset_branch 0 hb
    rw [Nat.zero_add] at hbranch
    exact List.subset_append_of_subset_left _ hbranch
  · have hlast := (List.getElem?_eq_some_iff.mp h).1
    simp only [arms, List.length_append, List.length_map, List.length_singleton] at hlast
    have hend : j = branches.length := by omega
    subst hend
    simp only [arms, List.getElem?_append_right, List.length_map, Nat.le_refl, Nat.sub_self,
      List.getElem?_cons_zero, Option.some.injEq] at h
    subst h
    exact List.subset_append_right _ _

/-! ### Sites -/

theorem suffix_of_deeper
    (h : ∀ place ∈ (s.places site depth).tail, ∃ i, (i :: site) <:+ place.site) :
    ∀ place ∈ s.places site depth, site <:+ place.site := by
  intro place hplace
  rw [places_eq_cons] at hplace
  rcases List.mem_cons.mp hplace with rfl | hplace
  · exact List.suffix_refl _
  · obtain ⟨i, hi⟩ := h place hplace
    exact (List.suffix_cons i site).trans hi

mutual

/-- What stands in a statement is at a site that goes on from its own. -/
theorem deeper_places (site : Site) (depth : Nat) (s : Statement) :
    ∀ place ∈ (s.places site depth).tail, ∃ i, (i :: site) <:+ place.site := by
  intro place h
  cases s with
  | loop count body =>
    obtain ⟨i, -, hi⟩ := deeper_blockPlaces site (depth + 1) 0 body place h
    exact ⟨i, hi⟩
  | conditional branches otherwise =>
    rcases List.mem_append.mp h with h | h
    · obtain ⟨j, -, -, hj⟩ := deeper_branchPlaces site depth 0 branches place h
      exact ⟨j, hj⟩
    · obtain ⟨i, -, hi⟩ := deeper_blockPlaces (branches.length :: site) depth 0 otherwise place h
      exact ⟨branches.length, (List.suffix_cons i _).trans hi⟩
  | define name body =>
    obtain ⟨i, -, hi⟩ := deeper_blockPlaces site (max depth 1) 0 body place h
    exact ⟨i, hi⟩
  | segment name body =>
    obtain ⟨i, -, hi⟩ := deeper_blockPlaces site depth 0 body place h
    exact ⟨i, hi⟩
  | _ => cases h

theorem deeper_blockPlaces (site : Site) (depth k : Nat) (block : List Statement) :
    ∀ place ∈ blockPlaces site depth k block, ∃ i, k ≤ i ∧ (i :: site) <:+ place.site := by
  intro place h
  cases block with
  | nil => cases h
  | cons s rest =>
    rcases List.mem_append.mp h with h | h
    · exact ⟨k, Nat.le_refl k, suffix_of_deeper (deeper_places (k :: site) depth s) place h⟩
    · obtain ⟨i, hle, hi⟩ := deeper_blockPlaces site depth (k + 1) rest place h
      exact ⟨i, by omega, hi⟩

theorem deeper_branchPlaces (site : Site) (depth k : Nat) (branches : List Branch) :
    ∀ place ∈ branchPlaces site depth k branches,
      ∃ j, k ≤ j ∧ j < k + branches.length ∧ (j :: site) <:+ place.site := by
  intro place h
  cases branches with
  | nil => cases h
  | cons b rest =>
    obtain ⟨condition, body⟩ := b
    rw [List.length_cons]
    rcases List.mem_append.mp h with h | h
    · obtain ⟨i, -, hi⟩ := deeper_blockPlaces (k :: site) depth 0 body place h
      exact ⟨k, Nat.le_refl k, by omega, (List.suffix_cons i _).trans hi⟩
    · obtain ⟨j, hle, hlt, hj⟩ := deeper_branchPlaces site depth (k + 1) rest place h
      exact ⟨j, by omega, by omega, hj⟩

end

theorem eq_of_suffix {i j : Nat} {inner : Site} (hi : (i :: site) <:+ inner)
    (hj : (j :: site) <:+ inner) : i = j := by
  have hsame := (List.suffix_of_suffix_length_le hi hj (Nat.le_refl _)).eq_of_length rfl
  exact (List.cons.inj hsame).1

theorem not_suffix_self (i : Nat) (site : Site) : ¬ (i :: site) <:+ site := by
  intro h
  have hlength := h.length_le
  rw [List.length_cons] at hlength
  omega

theorem nodup_append {first second : List Place} (hfirst : (first.map Place.site).Nodup)
    (hsecond : (second.map Place.site).Nodup)
    (hapart : ∀ a ∈ first, ∀ b ∈ second, a.site ≠ b.site) :
    ((first ++ second).map Place.site).Nodup := by
  rw [List.map_append]
  apply hfirst.append hsecond
  intro inner hinner hinner'
  obtain ⟨a, ha, rfl⟩ := List.mem_map.mp hinner
  obtain ⟨b, hb, hsame⟩ := List.mem_map.mp hinner'
  exact hapart a ha b hb hsame.symm

mutual

theorem nodup_places (site : Site) (depth : Nat) (s : Statement) :
    ((s.places site depth).map Place.site).Nodup := by
  rw [places_eq_cons]
  refine List.nodup_cons.mpr ⟨fun h => ?_, ?_⟩
  · obtain ⟨b, hb, hsame⟩ := List.mem_map.mp h
    obtain ⟨i, hi⟩ := deeper_places site depth s b hb
    rw [hsame] at hi
    exact not_suffix_self i site hi
  · cases s with
    | loop count body => exact nodup_blockPlaces site (depth + 1) 0 body
    | conditional branches otherwise =>
      refine nodup_append (nodup_branchPlaces site depth 0 branches)
        (nodup_blockPlaces (branches.length :: site) depth 0 otherwise) fun a ha b hb h => ?_
      obtain ⟨j, -, hlt, hj⟩ := deeper_branchPlaces _ _ _ _ a ha
      obtain ⟨i, -, hi⟩ := deeper_blockPlaces _ _ _ _ b hb
      rw [h] at hj
      have hsame := eq_of_suffix hj ((List.suffix_cons i _).trans hi)
      omega
    | define name body => exact nodup_blockPlaces site (max depth 1) 0 body
    | segment name body => exact nodup_blockPlaces site depth 0 body
    | _ => exact List.nodup_nil

theorem nodup_blockPlaces (site : Site) (depth k : Nat) (block : List Statement) :
    ((blockPlaces site depth k block).map Place.site).Nodup := by
  cases block with
  | nil => exact List.nodup_nil
  | cons s rest =>
    refine nodup_append (nodup_places (k :: site) depth s)
      (nodup_blockPlaces site depth (k + 1) rest) fun a ha b hb h => ?_
    have hk := suffix_of_deeper (deeper_places (k :: site) depth s) a ha
    obtain ⟨i, hle, hi⟩ := deeper_blockPlaces _ _ _ _ b hb
    rw [h] at hk
    have hsame := eq_of_suffix hk hi
    omega

theorem nodup_branchPlaces (site : Site) (depth k : Nat) (branches : List Branch) :
    ((branchPlaces site depth k branches).map Place.site).Nodup := by
  cases branches with
  | nil => exact List.nodup_nil
  | cons b rest =>
    obtain ⟨condition, body⟩ := b
    refine nodup_append (nodup_blockPlaces (k :: site) depth 0 body)
      (nodup_branchPlaces site depth (k + 1) rest) fun a ha b hb h => ?_
    obtain ⟨i, -, hi⟩ := deeper_blockPlaces _ _ _ _ a ha
    obtain ⟨j, hle, -, hj⟩ := deeper_branchPlaces _ _ _ _ b hb
    rw [h] at hi
    have hsame := eq_of_suffix ((List.suffix_cons i _).trans hi) hj
    omega

end

end Statement

def Program.places (p : Program) : List Place := Statement.blockPlaces [] 0 0 p.statements

/-- No two statements of a program are at the same site. -/
theorem Program.nodup_sites (p : Program) : (p.places.map Place.site).Nodup :=
  Statement.nodup_blockPlaces [] 0 0 p.statements

end Choreography
