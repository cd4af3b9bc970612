/-! # Association lists

Lists of keys with values in which a key is looked up from the front. -/
namespace Choreography.Assoc
variable {α : Type u} {β : Type v} [DecidableEq α]

def find? (key : α) : List (α × β) → Option β
  | [] => none
  | (k, v) :: rest => if k = key then some v else find? key rest

/-- Replaces the value of a key or adds the key at the end. -/
def assign (key : α) (value : β) : List (α × β) → List (α × β)
  | [] => [(key, value)]
  | (k, v) :: rest => if k = key then (key, value) :: rest else (k, v) :: assign key value rest

@[simp] theorem find?_assign_self (key : α) (value : β) (entries : List (α × β)) :
    find? key (assign key value entries) = some value := by
  induction entries with
  | nil => simp [assign, find?]
  | cons e rest ih =>
    obtain ⟨k, v⟩ := e
    by_cases h : k = key <;> simp [assign, find?, h, ih]

theorem find?_assign_ne {key other : α} (value : β) (entries : List (α × β))
    (h : other ≠ key) : find? other (assign key value entries) = find? other entries := by
  induction entries with
  | nil => simp [assign, find?, h.symm]
  | cons e rest ih =>
    obtain ⟨k, v⟩ := e
    by_cases hk : k = key
    · subst hk
      simp [assign, find?, h.symm]
    · simp [assign, find?, hk, ih]

end Choreography.Assoc
