import Choreography.Table
import Mathlib.Data.List.Perm.Subperm

/-! # Laws of tables

A table is known by what it finds under each key. -/
namespace Choreography.Table
variable {β : Type u} {γ : Type v}

theorem find?_eq_some_iff (t : Table β) (key : String) (value : β) :
    t.find? key = some value ↔ (key, value) ∈ t.entries := by
  obtain ⟨entries, sorted⟩ := t
  simp only [find?]
  induction entries with
  | nil => simp [lookup]
  | cons e rest ih =>
    obtain ⟨k, v⟩ := e
    have hk := List.pairwise_cons.1 sorted
    by_cases h : k = key
    · subst h
      have hnone : (k, value) ∉ rest := fun hm => String.lt_irrefl k (hk.1 _ hm)
      simp [lookup, hnone, eq_comm]
    · simp [lookup, h, ih hk.2, Ne.symm h]

theorem contains_iff (t : Table β) (key : String) :
    t.contains key = true ↔ ∃ value, t.find? key = some value := Option.isSome_iff_exists

theorem mem_keys (t : Table β) (key : String) : key ∈ t.keys ↔ t.contains key = true := by
  simp [contains_iff, find?_eq_some_iff, keys]

theorem nodup_keys (t : Table β) : t.keys.Nodup := by
  refine List.pairwise_map.2 (t.sorted.imp fun {a b} h heq => ?_)
  exact String.lt_irrefl b.1 (heq ▸ h)

theorem length_keys (t : Table β) : t.keys.length = t.size := by simp [keys, size]

theorem size_le_of_subset {t : Table β} {keys : List String} (h : t.keys ⊆ keys) :
    t.size ≤ keys.length := by
  rw [← length_keys]
  exact ((nodup_keys t).subperm h).length_le

/-- A table that has as many of some keys as there are has them all. -/
theorem subset_keys_of_length_le {t : Table β} {keys : List String} (h : t.keys ⊆ keys)
    (hlength : keys.length ≤ t.size) : keys ⊆ t.keys := by
  rw [← length_keys] at hlength
  exact (((nodup_keys t).subperm h).perm_of_length_le hlength).symm.subset

@[simp] theorem find?_emptyCollection (key : String) : (∅ : Table β).find? key = none := rfl

@[simp] theorem contains_emptyCollection (key : String) :
    (∅ : Table β).contains key = false := rfl

theorem contains_insert (t : Table β) (key other : String) (value : β) :
    (t.insert key value).contains other = true ↔ other = key ∨ t.contains other = true := by
  simp only [contains, find?_insert]
  split <;> simp_all

theorem contains_add (t : Table Unit) (key other : String) :
    (t.add key).contains other = true ↔ other = key ∨ t.contains other = true :=
  contains_insert t key other ()

theorem contains_foldl_add (keys : List String) (t : Table Unit) (key : String) :
    (keys.foldl add t).contains key = true ↔ key ∈ keys ∨ t.contains key = true := by
  induction keys generalizing t with
  | nil => simp
  | cons k rest ih =>
    rw [List.foldl_cons, ih, contains_add, List.mem_cons]
    constructor
    · rintro (h | h | h) <;> simp [h]
    · rintro ((h | h) | h) <;> simp [h]

theorem find?_filter (t : Table β) (p : String → β → Bool) (key : String) :
    (t.filter p).find? key = (t.find? key).filter (p key) := by
  apply Option.ext
  intro value
  rw [find?_eq_some_iff, Option.filter_eq_some_iff, find?_eq_some_iff]
  exact List.mem_filter

theorem contains_filter {t : Table Unit} {p : String → Unit → Bool} {key : String} :
    (t.filter p).contains key = true ↔ t.contains key = true ∧ p key () = true := by
  simp only [contains_iff, find?_filter, Option.filter_eq_some_iff]
  exact ⟨fun ⟨_, h⟩ => ⟨⟨(), h.1⟩, h.2⟩, fun ⟨⟨_, h⟩, hp⟩ => ⟨(), h, hp⟩⟩

theorem find?_erase (t : Table β) (key other : String) :
    (t.erase key).find? other = if other = key then none else t.find? other := by
  rw [erase, find?_filter]
  split
  · rename_i h
    simp [h]
  · rename_i h
    cases t.find? other <;> simp [Option.filter, h]

theorem contains_erase (t : Table β) (key other : String) :
    (t.erase key).contains other = true ↔ other ≠ key ∧ t.contains other = true := by
  simp only [contains, find?_erase]
  split <;> simp_all

theorem find?_map (f : β → γ) (t : Table β) (key : String) :
    (t.map f).find? key = (t.find? key).map f := by
  obtain ⟨entries, sorted⟩ := t
  simp only [map, find?]
  clear sorted
  induction entries with
  | nil => rfl
  | cons e rest ih =>
    simp only [List.map_cons, lookup, ih]
    split <;> rfl

theorem map_insert (f : β → γ) (t : Table β) (key : String) (value : β) :
    (t.insert key value).map f = (t.map f).insert key (f value) := by
  obtain ⟨entries, sorted⟩ := t
  simp only [map, insert, Table.mk.injEq]
  clear sorted
  induction entries with
  | nil => rfl
  | cons e rest ih =>
    simp only [place, List.map_cons]
    split
    · rfl
    · split
      · rfl
      · rw [List.map_cons, ih]

theorem size_insert_le (t : Table β) (key : String) (value : β) :
    (t.insert key value).size ≤ t.size + 1 := by
  obtain ⟨entries, sorted⟩ := t
  simp only [size, insert]
  clear sorted
  induction entries with
  | nil => simp [place]
  | cons e rest ih =>
    simp only [place]
    split
    · exact Nat.le_refl _
    · split
      · exact Nat.le_succ _
      · exact Nat.succ_le_succ ih

/-- A new value under a known key leaves the keys as they are. -/
theorem keys_insert_of_contains {t : Table β} {key : String} (value : β)
    (h : t.contains key = true) : (t.insert key value).keys = t.keys := by
  obtain ⟨entries, sorted⟩ := t
  simp only [keys, insert]
  simp only [contains, find?] at h
  induction entries with
  | nil => simp [lookup] at h
  | cons e rest ih =>
    obtain ⟨k, v⟩ := e
    have hk := List.pairwise_cons.1 sorted
    simp only [place]
    by_cases heq : key = k
    · subst heq
      simp
    · have hrest : (lookup key rest).isSome = true := by simpa [lookup, Ne.symm heq] using h
      have hlt : ¬ key < k := by
        intro hlt
        have hnone := lookup_eq_none_of_lt
          (fun x hx => String.lt_trans hlt (hk.1 x hx) : ∀ x ∈ rest, key < x.1)
        simp [hnone] at hrest
      simp [hlt, heq, ih hk.2 hrest]

/-- Tables that find the same are the same. -/
theorem ext_find? {t t' : Table β} (h : ∀ key, t.find? key = t'.find? key) : t = t' := by
  have hmem : ∀ e, e ∈ t.entries ↔ e ∈ t'.entries := by
    intro e
    rw [← find?_eq_some_iff, ← find?_eq_some_iff, h e.1]
  have hnodup : ∀ t : Table β, t.entries.Nodup := by
    intro t
    refine t.sorted.imp fun {a b} hlt heq => ?_
    exact String.lt_irrefl b.1 (heq ▸ hlt)
  have hperm := (List.perm_ext_iff_of_nodup (hnodup t) (hnodup t')).2 hmem
  have hentries : t.entries = t'.entries := by
    refine hperm.eq_of_pairwise (fun a b _ _ hab hba => ?_) t.sorted t'.sorted
    exact absurd (String.lt_trans hab hba) (String.lt_irrefl a.1)
  cases t
  cases t'
  cases hentries
  rfl

/-- Sets with the same members are the same. -/
theorem ext_contains {t t' : Table Unit}
    (h : ∀ key, t.contains key = true ↔ t'.contains key = true) : t = t' := by
  apply ext_find?
  intro key
  have hkey := h key
  rw [contains, contains] at hkey
  cases ht : t.find? key <;> cases ht' : t'.find? key <;> simp_all

/-- What is entered in order is found where it was entered last or where it was before. -/
theorem find?_foldl_insert {entries : List (String × β)}
    (h : entries.Pairwise (fun a b => a.1 < b.1)) (t : Table β) (key : String) :
    (entries.foldl (fun t e => t.insert e.1 e.2) t).find? key =
      (lookup key entries).or (t.find? key) := by
  induction entries generalizing t with
  | nil => rfl
  | cons e rest ih =>
    obtain ⟨hfirst, hrest⟩ := List.pairwise_cons.1 h
    rw [List.foldl_cons, ih hrest, find?_insert, lookup]
    by_cases heq : e.1 = key
    · subst heq
      rw [lookup_eq_none_of_lt hfirst, if_pos rfl, if_pos rfl]
      rfl
    · rw [if_neg heq, if_neg (Ne.symm heq)]

/-- A table is made of its entries. -/
@[simp] theorem ofList_entries (t : Table β) : ofList t.entries = t := by
  refine ext_find? fun key => ?_
  rw [ofList, find?_foldl_insert t.sorted, find?_empty, Option.or_none]
  rfl

end Choreography.Table
