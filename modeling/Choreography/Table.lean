/-! # Tables keyed by strings

A table keeps its entries in strictly increasing order of their keys, the order of Unicode code
points, so that two tables with the same entries are the same table. -/
namespace Choreography

/-- A finite map from strings, listed in increasing order of the keys. -/
structure Table (β : Type u) where
  entries : List (String × β)
  sorted : entries.Pairwise (fun a b => a.1 < b.1)

namespace Table
variable {β : Type u} {γ : Type v}

/-- The value listed under a key. -/
def lookup (key : String) : List (String × β) → Option β
  | [] => none
  | (k, v) :: rest => if k = key then some v else lookup key rest

/-- Replaces the value under a key, or adds the key at its place in the order. -/
def place (key : String) (value : β) : List (String × β) → List (String × β)
  | [] => [(key, value)]
  | (k, v) :: rest =>
      if key < k then (key, value) :: (k, v) :: rest
      else if key = k then (key, value) :: rest
      else (k, v) :: place key value rest

theorem mem_place {key : String} {value : β} {entries : List (String × β)} {x : String × β}
    (h : x ∈ place key value entries) : x = (key, value) ∨ x ∈ entries := by
  induction entries with
  | nil => simpa [place] using h
  | cons e rest ih =>
    obtain ⟨k, v⟩ := e
    simp only [place] at h
    split at h
    · simpa using h
    · split at h
      · rcases List.mem_cons.1 h with h | h
        · exact Or.inl h
        · exact Or.inr (List.mem_cons_of_mem _ h)
      · rcases List.mem_cons.1 h with h | h
        · exact Or.inr (h ▸ List.mem_cons_self)
        · rcases ih h with h | h
          · exact Or.inl h
          · exact Or.inr (List.mem_cons_of_mem _ h)

theorem lt_of_not_lt_of_ne {a b : String} (h : ¬ a < b) (hne : a ≠ b) : b < a := by
  rcases String.le_total a b with hab | hba
  · exact absurd (String.le_antisymm hab (String.not_lt.1 h)) hne
  · exact String.not_le.1 fun hab => hne (String.le_antisymm hab hba)

theorem place_sorted (key : String) (value : β) {entries : List (String × β)}
    (h : entries.Pairwise (fun a b => a.1 < b.1)) :
    (place key value entries).Pairwise (fun a b => a.1 < b.1) := by
  induction entries with
  | nil => simp [place]
  | cons e rest ih =>
    obtain ⟨k, v⟩ := e
    have hk := List.pairwise_cons.1 h
    simp only [place]
    split
    · rename_i hlt
      refine List.pairwise_cons.2 ⟨fun x hx => ?_, h⟩
      rcases List.mem_cons.1 hx with hx | hx
      · exact hx ▸ hlt
      · exact String.lt_trans hlt (hk.1 x hx)
    · split
      · rename_i heq
        exact List.pairwise_cons.2 ⟨fun x hx => heq ▸ hk.1 x hx, hk.2⟩
      · rename_i hnlt hne
        refine List.pairwise_cons.2 ⟨fun x hx => ?_, ih hk.2⟩
        rcases mem_place hx with hx | hx
        · exact hx ▸ lt_of_not_lt_of_ne hnlt hne
        · exact hk.1 x hx

def empty : Table β := ⟨[], List.Pairwise.nil⟩

instance : EmptyCollection (Table β) := ⟨empty⟩
instance : Inhabited (Table β) := ⟨empty⟩

def find? (t : Table β) (key : String) : Option β := lookup key t.entries

def contains (t : Table β) (key : String) : Bool := (t.find? key).isSome

def insert (t : Table β) (key : String) (value : β) : Table β :=
  ⟨place key value t.entries, place_sorted key value t.sorted⟩

/-- Keeps the entries that pass a test. -/
def filter (t : Table β) (p : String → β → Bool) : Table β :=
  ⟨t.entries.filter fun e => p e.1 e.2, t.sorted.filter _⟩

def erase (t : Table β) (key : String) : Table β := t.filter fun k _ => k != key

def keys (t : Table β) : List String := t.entries.map (·.1)

def size (t : Table β) : Nat := t.entries.length

def isEmpty (t : Table β) : Bool := t.entries.isEmpty

/-- Changes every value and keeps the keys. -/
def map (f : β → γ) (t : Table β) : Table γ :=
  ⟨t.entries.map fun e => (e.1, f e.2), by simpa [List.pairwise_map] using t.sorted⟩

/-- Of several entries with one key the last is kept. -/
def ofList (entries : List (String × β)) : Table β :=
  entries.foldl (fun t e => t.insert e.1 e.2) empty

/-- A set of strings is a table without values. -/
def add (t : Table Unit) (key : String) : Table Unit := t.insert key ()

@[simp] theorem lookup_place_self (key : String) (value : β) (entries : List (String × β)) :
    lookup key (place key value entries) = some value := by
  induction entries with
  | nil => simp [place, lookup]
  | cons e rest ih =>
    obtain ⟨k, v⟩ := e
    simp only [place]
    split
    · simp [lookup]
    · split
      · simp [lookup]
      · rename_i hne
        simp [lookup, Ne.symm hne, ih]

theorem lookup_place_ne {key other : String} (value : β) (entries : List (String × β))
    (h : other ≠ key) : lookup other (place key value entries) = lookup other entries := by
  induction entries with
  | nil => simp [place, lookup, h.symm]
  | cons e rest ih =>
    obtain ⟨k, v⟩ := e
    simp only [place]
    split
    · simp [lookup, h.symm]
    · split
      · rename_i heq
        subst heq
        simp [lookup, h.symm]
      · simp [lookup, ih]

theorem lookup_eq_none_of_lt {key : String} {entries : List (String × β)}
    (h : ∀ e ∈ entries, key < e.1) : lookup key entries = none := by
  induction entries with
  | nil => rfl
  | cons e rest ih =>
    have he : e.1 ≠ key := fun heq => String.lt_irrefl key (heq ▸ h e List.mem_cons_self)
    simp [lookup, he, ih fun x hx => h x (List.mem_cons_of_mem _ hx)]

@[simp] theorem find?_empty (key : String) : (empty : Table β).find? key = none := rfl

@[simp] theorem find?_insert_self (t : Table β) (key : String) (value : β) :
    (t.insert key value).find? key = some value := lookup_place_self key value t.entries

theorem find?_insert_ne (t : Table β) {key other : String} (value : β) (h : other ≠ key) :
    (t.insert key value).find? other = t.find? other := lookup_place_ne value t.entries h

theorem find?_insert (t : Table β) (key other : String) (value : β) :
    (t.insert key value).find? other = if other = key then some value else t.find? other := by
  split
  · rename_i h
    simp [h]
  · rename_i h
    exact find?_insert_ne t value h

end Table
end Choreography
