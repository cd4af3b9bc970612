import Choreography.Proofs.CycleSearch

/-! # Which cycles are found

The search is bounded by the number of widgets, but it never comes to its bound: it gives what the
search without a bound gives. That is a cycle if there is one among the widgets that are out of
date, since the order of the finished widgets leaves no room for a cycle. -/
namespace Choreography.Coordinator
variable {H : Type} {c : Coordinator H}

/-- The search without a bound. It goes through some widgets, given the path that leads to them, the
latest widget first, and the widgets that are finished. -/
inductive Searches (c : Coordinator H) :
    List String → List String → List String → Search → Prop
  | done {path finished : List String} : Searches c path [] finished (.ok finished)
  | resolved {path rest finished : List String} {id : String} {result : Search}
      (hres : c.isResolved id = true) (hrest : Searches c path rest finished result) :
      Searches c path (id :: rest) finished result
  | closed {path rest finished : List String} {id : String} (hout : c.isResolved id = false)
      (hmem : id ∈ path) : Searches c path (id :: rest) finished (.error (cycleOn path id))
  | finished {path rest finished : List String} {id : String} {result : Search}
      (hout : c.isResolved id = false) (hnew : id ∉ path) (hdone : id ∈ finished)
      (hrest : Searches c path rest finished result) : Searches c path (id :: rest) finished result
  | found {path rest finished cycle : List String} {id : String}
      (hout : c.isResolved id = false) (hnew : id ∉ path) (hundone : id ∉ finished)
      (hdeps : Searches c (id :: path) (c.dependencies id) finished (.error cycle)) :
      Searches c path (id :: rest) finished (.error cycle)
  | explored {path rest finished finished' : List String} {id : String} {result : Search}
      (hout : c.isResolved id = false) (hnew : id ∉ path) (hundone : id ∉ finished)
      (hdeps : Searches c (id :: path) (c.dependencies id) finished (.ok finished'))
      (hrest : Searches c path rest (id :: finished') result) :
      Searches c path (id :: rest) finished result

/-- The search without a bound gives one result at most. -/
theorem Searches.unique {path ids finished : List String} {result result' : Search}
    (h : c.Searches path ids finished result) (h' : c.Searches path ids finished result') :
    result = result' := by
  induction h generalizing result' with
  | done =>
    cases h'
    rfl
  | resolved hres _ ih =>
    cases h' with
    | resolved _ hrest' => exact ih hrest'
    | _ => simp_all
  | closed hout hmem =>
    cases h' with
    | closed => rfl
    | _ => simp_all
  | finished hout hnew hdone _ ih =>
    cases h' with
    | finished _ _ _ hrest' => exact ih hrest'
    | _ => simp_all
  | found hout hnew hundone _ ih =>
    cases h' with
    | found _ _ _ hdeps' => exact ih hdeps'
    | explored _ _ _ hdeps' _ => cases ih hdeps'
    | _ => simp_all
  | explored hout hnew hundone _ _ ihdeps ihrest =>
    cases h' with
    | found _ _ _ hdeps' => cases ihdeps hdeps'
    | explored _ _ _ hdeps' hrest' =>
      cases ihdeps hdeps'
      exact ihrest hrest'
    | _ => simp_all

/-- What the search from one widget gives if it is the search through what this one depends on. -/
def SearchesFrom (c : Coordinator H) (path finished : List String) (id : String) : Search → Prop
  | .error cycle => c.Searches (id :: path) (c.dependencies id) finished (.error cycle)
  | .ok all => ∃ finished', all = id :: finished' ∧
      c.Searches (id :: path) (c.dependencies id) finished (.ok finished')

theorem searches_searchAll {search : String → List String → Search} {path ids : List String}
    (hsearch : ∀ id ∈ ids, ∀ finished, c.isResolved id = false → id ∉ path →
      c.SearchesFrom path finished id (search id finished)) (finished : List String) :
    c.Searches path ids finished (c.searchAll search path ids finished) := by
  induction ids generalizing finished with
  | nil => exact .done
  | cons id rest ih =>
    obtain ⟨hid, hrest⟩ := List.forall_mem_cons.mp hsearch
    simp only [searchAll]
    split
    · exact .resolved ‹_› (ih hrest finished)
    · rename_i hres
      have hout : c.isResolved id = false := by simpa using hres
      split
      · exact .closed hout (by simpa using ‹path.contains id = true›)
      · rename_i hold
        have hnew : id ∉ path := by simpa using hold
        split
        · exact .finished hout hnew (by simpa using ‹finished.contains id = true›)
            (ih hrest finished)
        · rename_i hundone
          have hundone : id ∉ finished := by simpa using hundone
          have hfrom := hid finished hout hnew
          cases hs : search id finished with
          | error cycle =>
            rw [hs] at hfrom
            exact .found hout hnew hundone hfrom
          | ok all =>
            rw [hs] at hfrom
            obtain ⟨finished', rfl, hdeps⟩ := hfrom
            exact .explored hout hnew hundone hdeps (ih hrest _)

/-- Along a path of distinct widgets out of date the bound is never met. -/
theorem searchesFrom_search {n : Nat} {path finished : List String} {id : String}
    (hpath : c.IsTrail path) (hsize : c.widgets.size ≤ path.length + n) (hid : c.Follows path id)
    (hout : c.isResolved id = false) (hnew : id ∉ path) :
    c.SearchesFrom path finished id (c.search n path id finished) := by
  have htrail := hpath.cons hid hout hnew
  induction n generalizing path id finished with
  | zero =>
    have hlength := htrail.length_le
    simp only [List.length_cons] at hlength
    omega
  | succ n ih =>
    have hdeps : ∀ owner ∈ c.dependencies id, c.Follows (id :: path) owner := by
      intro owner howner
      obtain ⟨_, _, _, _, hreg⟩ := dependsOn_iff.1 howner
      refine ⟨hreg, fun top htop => ?_⟩
      obtain rfl : id = top := by simpa using htop
      exact howner
    have hall : c.Searches (id :: path) (c.dependencies id) finished
        (c.searchAll (c.search n (id :: path)) (id :: path) (c.dependencies id) finished) :=
      searches_searchAll (fun owner howner f ho hn =>
        ih htrail (by simp only [List.length_cons]; omega) (hdeps owner howner) ho hn
          (htrail.cons (hdeps owner howner) ho hn)) finished
    simp only [search]
    cases hs : c.searchAll (c.search n (id :: path)) (id :: path) (c.dependencies id) finished with
    | error cycle =>
      rw [hs] at hall
      exact hall
    | ok finished' =>
      rw [hs] at hall
      exact ⟨finished', rfl, hall⟩

/-- A whole search through all widgets comes to an end with what `findCycle` reports. -/
theorem searches_findCycle (c : Coordinator H) :
    ∃ result, c.Searches [] c.widgets.keys [] result ∧
      ∀ cycle, c.findCycle = some cycle ↔ result = .error cycle := by
  have htrail : c.IsTrail [] := ⟨List.nodup_nil, by simp, List.IsChain.nil⟩
  have hsearch : c.Searches [] c.widgets.keys []
      (c.searchAll (c.search c.widgets.size []) [] c.widgets.keys []) :=
    searches_searchAll (fun id hid f hout hnew => searchesFrom_search htrail (by simp)
      ⟨(Table.mem_keys ..).1 hid, by simp⟩ hout hnew) []
  refine ⟨_, hsearch, fun cycle => ?_⟩
  unfold findCycle
  cases c.searchAll (c.search c.widgets.size []) [] c.widgets.keys [] with
  | error found => simp
  | ok finished => simp

/-! ### Completeness -/

theorem IsOrdered.mem_of_heldUpBy {order : List String} (h : c.IsOrdered order) {id owner : String}
    (hid : id ∈ order) (hheld : c.HeldUpBy id owner) : owner ∈ order := by
  induction order with
  | nil => cases hid
  | cons first rest ih =>
    obtain ⟨-, hdeps, hrest⟩ := h
    refine List.mem_cons_of_mem _ ?_
    rcases List.mem_cons.mp hid with rfl | hid
    · exact hdeps owner hheld.2.2 (mem_unresolved.1 hheld.2.1).2
    · exact ih hrest hid

/-- What holds up a widget of an order, directly or through others, is in the order. -/
theorem IsOrdered.mem_of_reflTransGen {order : List String} (h : c.IsOrdered order)
    {id owner : String} (hid : id ∈ order) (hpath : Relation.ReflTransGen c.HeldUpBy id owner) :
    owner ∈ order := by
  induction hpath with
  | refl => exact hid
  | tail _ hstep ih => exact h.mem_of_heldUpBy ih hstep

/-- Nothing in an order holds itself up. -/
theorem IsOrdered.not_transGen {order : List String} (h : c.IsOrdered order) :
    ∀ id ∈ order, ¬ Relation.TransGen c.HeldUpBy id id := by
  induction order with
  | nil => simp
  | cons first rest ih =>
    obtain ⟨-, hdeps, hrest⟩ := h
    intro id hid hcycle
    -- what the first widget depends on comes after it, and no way leads back to it from there
    have hmem : id ∈ rest := by
      rcases List.mem_cons.mp hid with rfl | hmem
      · obtain ⟨owner, hheld, hback⟩ := Relation.TransGen.head'_iff.mp hcycle
        exact hrest.mem_of_reflTransGen
          (hdeps owner hheld.2.2 (mem_unresolved.1 hheld.2.1).2) hback
      · exact hmem
    exact ih hrest id hmem hcycle

theorem acyclic_of_findCycle (h : c.findCycle = none) : c.Acyclic := by
  obtain ⟨order, horder, hall⟩ := exists_isOrdered_of_findCycle h
  intro id hcycle
  obtain ⟨owner, hheld, -⟩ := Relation.TransGen.head'_iff.mp hcycle
  exact horder.not_transGen id (hall id hheld.1) hcycle

/-- The search ends with one result. It finds a cycle if and only if some widget that is out of date
holds itself up, directly or through others; and what it finds is one: distinct widgets out of date,
each of which depends on the next one and the last on the first. -/
theorem findCycle_finds (c : Coordinator H) :
    (∃ result, c.Searches [] c.widgets.keys [] result ∧
      (∀ other, c.Searches [] c.widgets.keys [] other → other = result) ∧
      ∀ cycle, c.findCycle = some cycle ↔ result = .error cycle) ∧
    ((∃ cycle, c.findCycle = some cycle) ↔ ∃ id, Relation.TransGen c.HeldUpBy id id) ∧
    ∀ cycle, c.findCycle = some cycle → cycle ≠ [] ∧ c.IsCycle cycle := by
  obtain ⟨result, hsearch, hreport⟩ := searches_findCycle c
  refine ⟨⟨result, hsearch, fun other hother => hother.unique hsearch, hreport⟩, ⟨?_, ?_⟩, ?_⟩
  · rintro ⟨cycle, hfind⟩
    by_contra hnone
    exact (isCycle_of_findCycle hfind).not_acyclic fun id hcycle => hnone ⟨id, hcycle⟩
  · rintro ⟨id, hcycle⟩
    cases hfind : c.findCycle with
    | some cycle => exact ⟨cycle, rfl⟩
    | none => exact absurd hcycle (acyclic_of_findCycle hfind id)
  · intro cycle hfind
    have hcycle := isCycle_of_findCycle hfind
    refine ⟨?_, hcycle⟩
    rintro rfl
    obtain ⟨first, hfirst, -⟩ := hcycle.closed
    cases hfirst

end Choreography.Coordinator
