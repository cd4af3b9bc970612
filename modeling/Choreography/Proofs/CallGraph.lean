import Choreography.Interpreter
import Mathlib.Logic.Relation

/-! # The call graph of a program

Which sequence calls which one, by name. A call belongs to the innermost definition around it. The
blocks of a program are found by their sites; nesting of blocks and chains of calls together are
an order on sites if no sequence can call itself. -/
namespace Choreography

namespace Statement

mutual

/-- The calls in a statement, each with the sequence in whose body it stands; `home` is the one
around the statement. -/
def calls (home : Option String) : Statement → List (Option String × String)
  | .call name => [(home, name)]
  | .loop _ body => blockCalls home body
  | .conditional branches otherwise => branchCalls home branches ++ blockCalls home otherwise
  | .define name body => blockCalls (some name) body
  | .segment _ body => blockCalls home body
  | _ => []

def blockCalls (home : Option String) : List Statement → List (Option String × String)
  | [] => []
  | s :: rest => s.calls home ++ blockCalls home rest

def branchCalls (home : Option String) : List Branch → List (Option String × String)
  | [] => []
  | .mk _ body :: rest => blockCalls home body ++ branchCalls home rest

end

theorem calls_subset_blockCalls (home : Option String) {s : Statement} {block : Block}
    (h : s ∈ block) : s.calls home ⊆ blockCalls home block := by
  induction block with
  | nil => cases h
  | cons t rest ih =>
    intro e he
    rw [blockCalls, List.mem_append]
    rcases List.mem_cons.mp h with rfl | h
    · exact .inl he
    · exact .inr (ih h he)

theorem blockCalls_subset_branchCalls (home : Option String) {b : Branch} {branches : List Branch}
    (h : b ∈ branches) : blockCalls home b.body ⊆ branchCalls home branches := by
  induction branches with
  | nil => cases h
  | cons c rest ih =>
    intro e he
    obtain ⟨condition, body⟩ := c
    rw [branchCalls, List.mem_append]
    rcases List.mem_cons.mp h with rfl | h
    · exact .inl he
    · exact .inr (ih h he)

def arms (branches : List Branch) (otherwise : Block) : List Block :=
  branches.map Branch.body ++ [otherwise]

theorem blockCalls_subset_arms (home : Option String) {branches : List Branch} {otherwise : Block}
    {arm : Block} (h : arm ∈ arms branches otherwise) :
    blockCalls home arm ⊆ (Statement.conditional branches otherwise).calls home := by
  intro e he
  rw [calls, List.mem_append]
  rcases List.mem_append.mp h with h | h
  · obtain ⟨b, hb, rfl⟩ := List.mem_map.mp h
    exact .inl (blockCalls_subset_branchCalls home hb he)
  · rw [List.mem_singleton.mp h] at he
    exact .inr he

end Statement

/-- The block that a path from a block leads to, with the sequence in whose body it stands. -/
def locate (home : Option String) (block : Block) : List Nat → Option (Option String × Block)
  | [] => some (home, block)
  | i :: path =>
      match block[i]? with
      | some (.loop _ body) => locate home body path
      | some (.segment _ body) => locate home body path
      | some (.define name body) => locate (some name) body path
      | some (.conditional branches otherwise) =>
          match path with
          | [] => none
          | j :: path =>
              match (Statement.arms branches otherwise)[j]? with
              | some arm => locate home arm path
              | none => none
      | _ => none

/-- A path goes on from the block that it leads to. -/
theorem locate_append {home home' : Option String} {block block' : Block} {path : List Nat}
    (rest : List Nat) (h : locate home block path = some (home', block')) :
    locate home block (path ++ rest) = locate home' block' rest := by
  fun_induction locate home block path with
  | case1 => cases h; rfl
  | case2 home block i path count body hs ih => simpa only [List.cons_append, locate, hs] using ih h
  | case3 home block i path name body hs ih => simpa only [List.cons_append, locate, hs] using ih h
  | case4 home block i path name body hs ih => simpa only [List.cons_append, locate, hs] using ih h
  | case5 => cases h
  | case6 home block i branches otherwise hs j path arm harm ih =>
    simpa only [List.cons_append, locate, hs, harm] using ih h
  | case7 => cases h
  | case8 => cases h

theorem blockCalls_subset_of_locate {home home' : Option String} {block block' : Block}
    {path : List Nat} (h : locate home block path = some (home', block')) :
    Statement.blockCalls home' block' ⊆ Statement.blockCalls home block := by
  fun_induction locate home block path with
  | case1 => cases h; exact List.Subset.refl _
  | case2 home block i path count body hs ih =>
    have hcalls := Statement.calls_subset_blockCalls home (List.mem_of_getElem? hs)
    exact List.Subset.trans (ih h) hcalls
  | case3 home block i path name body hs ih =>
    have hcalls := Statement.calls_subset_blockCalls home (List.mem_of_getElem? hs)
    exact List.Subset.trans (ih h) hcalls
  | case4 home block i path name body hs ih =>
    have hcalls := Statement.calls_subset_blockCalls home (List.mem_of_getElem? hs)
    exact List.Subset.trans (ih h) hcalls
  | case5 => cases h
  | case6 home block i branches otherwise hs j path arm harm ih =>
    have harms := Statement.blockCalls_subset_arms home (List.mem_of_getElem? harm)
    have hcalls := Statement.calls_subset_blockCalls home (List.mem_of_getElem? hs)
    exact List.Subset.trans (List.Subset.trans (ih h) harms) hcalls
  | case7 => cases h
  | case8 => cases h

namespace Program

/-- All calls of a program; those outside of all definitions have no caller. -/
def calls (p : Program) : List (Option String × String) := Statement.blockCalls none p.statements

def Calls (p : Program) (caller callee : String) : Prop := (some caller, callee) ∈ p.calls

def Acyclic (p : Program) : Prop := ∀ name, ¬ Relation.TransGen p.Calls name name

/-- If all calls lower a rank, no sequence can call itself. -/
theorem acyclic_of_rank (p : Program) (rank : String → Nat)
    (h : ∀ call ∈ p.calls, ∀ caller ∈ call.1, rank call.2 < rank caller) : p.Acyclic := by
  intro name hcycle
  have hdrop : ∀ a b, Relation.TransGen p.Calls a b → rank b < rank a := by
    intro a b hab
    induction hab with
    | single hcall => exact h _ hcall _ rfl
    | tail _ hcall ih => exact Nat.lt_trans (h _ hcall _ rfl) ih
  exact Nat.lt_irrefl _ (hdrop name name hcycle)

/-- The block at a site, with the sequence in whose body it stands. -/
def blockAt (p : Program) (site : Site) : Option (Option String × Block) :=
  locate none p.statements site.reverse

variable {p : Program} {site : Site} {home : Option String} {block : Block}

theorem blockAt_nil (p : Program) : p.blockAt [] = some (none, p.statements) := rfl

theorem blockAt_cons (h : p.blockAt site = some (home, block)) (i : Nat) :
    p.blockAt (i :: site) = locate home block [i] := by
  unfold blockAt
  rw [List.reverse_cons, locate_append [i] h]

theorem blockAt_loop (h : p.blockAt site = some (home, block)) {i : Nat} {count : LoopCount}
    {body : Block} (hs : block[i]? = some (.loop count body)) :
    p.blockAt (i :: site) = some (home, body) := by
  rw [blockAt_cons h, locate, hs]
  rfl

theorem blockAt_segment (h : p.blockAt site = some (home, block)) {i : Nat} {name : String}
    {body : Block} (hs : block[i]? = some (.segment name body)) :
    p.blockAt (i :: site) = some (home, body) := by
  rw [blockAt_cons h, locate, hs]
  rfl

theorem blockAt_define (h : p.blockAt site = some (home, block)) {i : Nat} {name : String}
    {body : Block} (hs : block[i]? = some (.define name body)) :
    p.blockAt (i :: site) = some (some name, body) := by
  rw [blockAt_cons h, locate, hs]
  rfl

theorem blockAt_arm (h : p.blockAt site = some (home, block)) {i j : Nat} {branches : List Branch}
    {otherwise arm : Block} (hs : block[i]? = some (.conditional branches otherwise))
    (harm : (Statement.arms branches otherwise)[j]? = some arm) :
    p.blockAt (j :: i :: site) = some (home, arm) := by
  have hpath : (j :: i :: site).reverse = site.reverse ++ [i, j] := by simp
  unfold blockAt
  rw [hpath, locate_append [i, j] h, locate, hs]
  simp only [harm]
  rfl

theorem mem_calls (h : p.blockAt site = some (home, block)) {name : String}
    (hs : Statement.call name ∈ block) : (home, name) ∈ p.calls := by
  refine blockCalls_subset_of_locate h (Statement.calls_subset_blockCalls home hs ?_)
  simp [Statement.calls]

/-- A call seen from the body that it stands in, or from the program around all definitions. -/
def Enters (p : Program) (caller callee : Option String) : Prop :=
  ∃ name, (caller, name) ∈ p.calls ∧ callee = some name

theorem calls_of_enters {caller : String} {callee : Option String}
    (h : Relation.TransGen p.Enters (some caller) callee) :
    ∃ name, callee = some name ∧ Relation.TransGen p.Calls caller name := by
  induction h with
  | single hcall =>
    obtain ⟨name, hmem, rfl⟩ := hcall
    exact ⟨name, rfl, .single hmem⟩
  | tail _ hcall ih =>
    obtain ⟨middle, rfl, hpath⟩ := ih
    obtain ⟨name, hmem, rfl⟩ := hcall
    exact ⟨name, rfl, hpath.tail hmem⟩

theorem Acyclic.not_enters (hp : p.Acyclic) (home : Option String) :
    ¬ Relation.TransGen p.Enters home home := by
  intro h
  cases home with
  | none =>
    -- The program around all definitions has no name to be called by.
    obtain ⟨caller, -, name, -, hname⟩ := Relation.TransGen.tail'_iff.mp h
    cases hname
  | some caller =>
    obtain ⟨name, hname, hpath⟩ := calls_of_enters h
    cases hname
    exact hp caller hpath

/-- One block is entered from another one: it is deeper in the tree of the same body, or it stands
in a sequence that the other one calls, maybe through others. -/
def Inside (p : Program) (inner outer : Site) : Prop :=
  ∃ home block home' block', p.blockAt inner = some (home, block) ∧
    p.blockAt outer = some (home', block') ∧
    ((home = home' ∧ outer.length < inner.length) ∨ Relation.TransGen p.Enters home' home)

theorem Inside.ne (hp : p.Acyclic) {inner outer : Site} (h : p.Inside inner outer) :
    inner ≠ outer := by
  rintro rfl
  obtain ⟨home, block, home', block', hinner, houter, hcase⟩ := h
  rw [hinner] at houter
  cases houter
  rcases hcase with ⟨-, hlt⟩ | hcycle
  · exact Nat.lt_irrefl _ hlt
  · exact hp.not_enters home hcycle

theorem Inside.trans {a b c : Site} (hab : p.Inside a b) (hbc : p.Inside b c) : p.Inside a c := by
  obtain ⟨home, block, home', block', ha, hb, hcase⟩ := hab
  obtain ⟨_, _, last, lastBlock, hb', hc, hcase'⟩ := hbc
  rw [hb] at hb'
  cases hb'
  refine ⟨home, block, last, lastBlock, ha, hc, ?_⟩
  rcases hcase with ⟨rfl, hlt⟩ | hpath <;> rcases hcase' with ⟨rfl, hlt'⟩ | hpath'
  · exact .inl ⟨rfl, Nat.lt_trans hlt' hlt⟩
  · exact .inr hpath'
  · exact .inr hpath
  · exact .inr (hpath'.trans hpath)

theorem inside_of_longer {inner : Site} {block' : Block} (h : p.blockAt site = some (home, block))
    (hinner : p.blockAt inner = some (home, block')) (hlt : site.length < inner.length) :
    p.Inside inner site := ⟨home, block', home, block, hinner, h, .inl ⟨rfl, hlt⟩⟩

theorem inside_of_call {inner : Site} {block' : Block} {name : String}
    (h : p.blockAt site = some (home, block))
    (hinner : p.blockAt inner = some (some name, block')) (hs : Statement.call name ∈ block) :
    p.Inside inner site :=
  ⟨some name, block', home, block, hinner, h, .inr (.single ⟨name, mem_calls h hs, rfl⟩)⟩

end Program
end Choreography
