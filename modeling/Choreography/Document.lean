import Choreography.Binary64

/-! # Documents

The tree that a data text holds, whatever its notation: scalars, arrays, and objects whose fields
keep their order and may repeat. -/
namespace Choreography

inductive Document where
  | null
  | bool (b : Bool)
  /-- A whole number that is written without a sign. -/
  | natural (n : Nat)
  /-- A whole number with a sign, or of a notation that has signed numbers only. -/
  | integer (i : Int)
  | float (x : Binary64)
  | string (s : String)
  | array (items : List Document)
  | object (fields : List (String × Document))
  /-- A part that is well formed but cannot be represented; it may only be skipped. -/
  | unreadable
deriving Repr, Inhabited

namespace Document

/-- The whole number that a document is. -/
def whole? : Document → Option Int
  | .natural n => some n
  | .integer i => some i
  | _ => none

/-- A whole number as a document. -/
def ofInt (i : Int) : Document := if 0 ≤ i then .natural i.toNat else .integer i

mutual

/-- Whether no part of a document is unreadable. -/
def isReadable : Document → Bool
  | .unreadable => false
  | .array items => areReadable items
  | .object fields => fieldsAreReadable fields
  | _ => true

def areReadable : List Document → Bool
  | [] => true
  | d :: rest => d.isReadable && areReadable rest

def fieldsAreReadable : List (String × Document) → Bool
  | [] => true
  | (_, d) :: rest => d.isReadable && fieldsAreReadable rest

end

/-- Puts a field last among those of other names, so that of several with one name the last
counts. -/
def setField (fields : List (String × Document)) (name : String) (d : Document) :
    List (String × Document) :=
  if fields.any (·.1 == name) then fields.map fun f => if f.1 = name then (name, d) else f
  else fields ++ [(name, d)]

mutual

/-- Keeps the last of the fields of one name, at every depth. -/
def lastFields : Document → Document
  | .array items => .array (lastFieldsEach items)
  | .object fields => .object (lastFieldsOf fields [])
  | d => d

def lastFieldsEach : List Document → List Document
  | [] => []
  | d :: rest => d.lastFields :: lastFieldsEach rest

def lastFieldsOf : List (String × Document) → List (String × Document) → List (String × Document)
  | [], kept => kept
  | (name, d) :: rest, kept => lastFieldsOf rest (setField kept name d.lastFields)

end

mutual

/-- How deep arrays and objects nest in a document. -/
def depth : Document → Nat
  | .array items => depthEach items + 1
  | .object fields => depthOfFields fields + 1
  | _ => 0

def depthEach : List Document → Nat
  | [] => 0
  | d :: rest => max d.depth (depthEach rest)

def depthOfFields : List (String × Document) → Nat
  | [] => 0
  | (_, d) :: rest => max d.depth (depthOfFields rest)

end

/-- The fields of one name, in their order. -/
def fieldsNamed (name : String) (fields : List (String × Document)) : List Document :=
  (fields.filter fun f => f.1 == name).map (·.2)

end Document
end Choreography
