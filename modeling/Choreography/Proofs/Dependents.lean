import Choreography.Proofs.Operations

/-! # What depends on a widget

A widget is affected by another one if it depends on that one, directly or through others. The
affected widgets are found by adding dependents round by round. There are rounds enough to come to
a set that has all its dependents, since each round before adds a widget that waits for something. -/
namespace Choreography.Coordinator
variable {H : Type} {c : Coordinator H} {ids : Table Unit} {id other owner seed : String}

/-- A widget waits for an event of another registered one, or of one that relies on it in turn. -/
def Relies (c : Coordinator H) : String → String → Prop :=
  Relation.TransGen fun id owner => ∃ event, c.Awaits id event owner

theorem relies_eq (c : Coordinator H) : c.Relies = Relation.TransGen c.DependsOn := by
  have hedges : (fun id owner => ∃ event, c.Awaits id event owner) = c.DependsOn := by
    funext id owner
    exact propext dependsOn_iff.symm
  rw [Relies, hedges]

theorem mem_waits_of_dependsOn (h : c.DependsOn id owner) : id ∈ c.waits.keys := by
  obtain ⟨event, hwaits, -⟩ := dependsOn_iff.1 h
  rw [Table.mem_keys, Table.contains_iff]
  cases hfound : c.waits.find? id with
  | some events => exact ⟨events, rfl⟩
  | none =>
    rw [waitsOf, hfound] at hwaits
    cases hwaits

/-! ### One round -/

theorem contains_withDependents :
    (c.withDependents ids).contains id = true ↔
      ids.contains id = true ∨ ∃ owner, c.DependsOn id owner ∧ ids.contains owner = true := by
  rw [withDependents, Table.contains_foldl_add, List.mem_filter, List.any_eq_true]
  constructor
  · rintro (⟨-, owner, howner, hids⟩ | hids)
    · exact .inr ⟨owner, howner, hids⟩
    · exact .inl hids
  · rintro (hids | ⟨owner, howner, hids⟩)
    · exact .inr hids
    · exact .inl ⟨mem_waits_of_dependsOn howner, owner, howner, hids⟩

theorem subset_withDependents : ids.keys ⊆ (c.withDependents ids).keys := by
  intro id hid
  rw [Table.mem_keys] at hid ⊢
  exact contains_withDependents.2 (.inl hid)

/-- Whatever is added waits for something. -/
theorem withDependents_subset (h : ids.keys ⊆ seed :: c.waits.keys) :
    (c.withDependents ids).keys ⊆ seed :: c.waits.keys := by
  intro id hid
  rw [Table.mem_keys, contains_withDependents] at hid
  rcases hid with hids | ⟨owner, howner, -⟩
  · exact h ((Table.mem_keys ..).2 hids)
  · exact List.mem_cons_of_mem _ (mem_waits_of_dependsOn howner)

def Closed (c : Coordinator H) (ids : Table Unit) : Prop :=
  ∀ id owner, c.DependsOn id owner → ids.contains owner = true → ids.contains id = true

theorem closed_of_subset (h : (c.withDependents ids).keys ⊆ ids.keys) : c.Closed ids := by
  intro id owner howner hids
  rw [← Table.mem_keys]
  apply h
  rw [Table.mem_keys]
  exact contains_withDependents.2 (.inr ⟨owner, howner, hids⟩)

theorem Closed.contains_of_reaches (h : c.Closed ids)
    (hreaches : Relation.ReflTransGen c.DependsOn id owner) (howner : ids.contains owner = true) :
    ids.contains id = true := by
  induction hreaches using Relation.ReflTransGen.head_induction_on with
  | refl => exact howner
  | head hstep _ ih => exact h _ _ hstep ih

theorem Closed.withDependents_eq (h : c.Closed ids) : c.withDependents ids = ids := by
  apply Table.ext_contains
  intro id
  rw [contains_withDependents]
  constructor
  · rintro (hids | ⟨owner, howner, hids⟩)
    · exact hids
    · exact h id owner howner hids
  · exact .inl

/-! ### All rounds -/

/-- A round that adds nothing ends the search, and so does a set of all that waits for something. -/
theorem closed_dependentClosure {rounds : Nat} (hids : ids.keys ⊆ seed :: c.waits.keys)
    (hrounds : c.waits.size + 1 ≤ ids.size + rounds) :
    c.Closed (c.dependentClosure rounds ids) := by
  have hwider := withDependents_subset hids
  induction rounds generalizing ids with
  | zero =>
    have hall : seed :: c.waits.keys ⊆ ids.keys := by
      apply Table.subset_keys_of_length_le hids
      rw [List.length_cons, Table.length_keys]
      omega
    exact closed_of_subset (List.Subset.trans hwider hall)
  | succ rounds ih =>
    rw [dependentClosure]
    have hwidens : ids.keys ⊆ (c.withDependents ids).keys := subset_withDependents
    have hgrows := Table.size_le_of_subset hwidens
    rw [Table.length_keys] at hgrows
    split
    · rename_i hsame
      apply closed_of_subset
      apply Table.subset_keys_of_length_le hwidens
      rw [Table.length_keys]
      omega
    · rename_i hmore
      exact ih hwider (by omega) (withDependents_subset hwider)

theorem contains_dependentClosure (rounds : Nat) (h : ids.contains id = true) :
    (c.dependentClosure rounds ids).contains id = true := by
  induction rounds generalizing ids with
  | zero => exact h
  | succ rounds ih =>
    rw [dependentClosure]
    split
    · exact h
    · exact ih (contains_withDependents.2 (.inl h))

/-- No round adds a widget that reaches none of the given ones. -/
theorem reaches_of_contains {rounds : Nat} (h : (c.dependentClosure rounds ids).contains id = true) :
    ∃ owner, Relation.ReflTransGen c.DependsOn id owner ∧ ids.contains owner = true := by
  induction rounds generalizing ids with
  | zero => exact ⟨id, .refl, h⟩
  | succ rounds ih =>
    rw [dependentClosure] at h
    split at h
    · exact ⟨id, .refl, h⟩
    · obtain ⟨owner, hreaches, howner⟩ := ih h
      rcases contains_withDependents.1 howner with howner | ⟨last, hlast, hids⟩
      · exact ⟨owner, hreaches, howner⟩
      · exact ⟨last, hreaches.tail hlast, hids⟩

/-! ### The affected widgets -/

theorem contains_single : (Table.empty.add seed).contains id = true ↔ id = seed :=
  (Table.contains_add _ _ _).trans (or_iff_left nofun)

theorem closed_affected (c : Coordinator H) (id : String) : c.Closed (c.affected id) := by
  have hwithin : (Table.empty.add id).keys ⊆ id :: c.waits.keys := by
    intro other hother
    rw [Table.mem_keys, contains_single] at hother
    rw [hother]
    exact List.mem_cons_self
  have hone : (Table.empty.add id).size = 1 := rfl
  apply closed_dependentClosure hwithin
  omega

theorem contains_affected_iff :
    (c.affected id).contains other = true ↔ Relation.ReflTransGen c.DependsOn other id := by
  constructor
  · intro h
    obtain ⟨owner, hreaches, howner⟩ := reaches_of_contains h
    rwa [contains_single.1 howner] at hreaches
  · intro h
    apply (closed_affected c id).contains_of_reaches h
    exact contains_dependentClosure _ (contains_single.2 rfl)

theorem isResolved_invalidate_iff :
    (c.invalidate id).isResolved other = true ↔
      c.isResolved other = true ∧ other ≠ id ∧ ¬ c.Relies other id := by
  have hkept : (c.invalidate id).isResolved other = true ↔
      c.isResolved other = true ∧ (!(c.affected id).contains other) = true := Table.contains_filter
  rw [hkept, Bool.not_eq_true', ← Bool.not_eq_true, contains_affected_iff,
    Relation.reflTransGen_iff_eq_or_transGen, not_or, relies_eq, ne_comm]

/-- Marking a widget makes exactly the widget and those that rely on it out of date, whether it is
registered or not, and in a cycle too. Nothing else changes. The search for them has come to an end:
one more round adds none. -/
theorem invalidates_dependent_closure (c : Coordinator H) (id : String) :
    (∀ other, (c.invalidate id).isResolved other = true ↔
      c.isResolved other = true ∧ other ≠ id ∧ ¬ c.Relies other id) ∧
    (c.invalidate id).widgets = c.widgets ∧
    (c.invalidate id).events = c.events ∧
    (c.invalidate id).waits = c.waits ∧
    (c.invalidate id).factor = c.factor ∧
    c.withDependents (c.affected id) = c.affected id :=
  ⟨fun _ => isResolved_invalidate_iff, rfl, rfl, rfl, rfl,
    (closed_affected c id).withDependents_eq⟩

end Choreography.Coordinator
