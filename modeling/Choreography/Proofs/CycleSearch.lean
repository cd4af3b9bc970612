import Choreography.Coordinator
import Choreography.Proofs.Tables
import Mathlib.Data.List.Chain
import Mathlib.Data.List.Perm.Subperm
import Mathlib.Logic.Relation

/-! # The search for cycles of dependencies

The search gives either a genuine cycle or a list of all widgets that are out of date in which
each one comes after those that it depends on. -/
namespace Choreography.Coordinator
variable {H : Type} {c : Coordinator H}

def DependsOn (c : Coordinator H) (id owner : String) : Prop := owner ∈ c.dependencies id

theorem provider?_eq_some_iff {id event owner : String} :
    c.provider? id event = some owner ↔
      c.eventOwner event = some owner ∧ owner ≠ id ∧ c.widgets.contains owner = true := by
  simp [provider?, Option.filter_eq_some_iff]

theorem dependsOn_iff {id owner : String} :
    c.DependsOn id owner ↔ ∃ event, (c.waitsOf id).contains event = true ∧
      c.eventOwner event = some owner ∧ owner ≠ id ∧ c.widgets.contains owner = true := by
  rw [DependsOn, dependencies, Table.mem_keys, Table.contains_foldl_add]
  simp only [Table.contains_emptyCollection, Bool.false_eq_true, or_false, List.mem_filterMap,
    Table.mem_keys, provider?_eq_some_iff]

theorem mem_unresolved {id : String} :
    id ∈ c.unresolved ↔ c.widgets.contains id = true ∧ c.isResolved id = false := by
  simp [unresolved, Table.mem_keys]

theorem nodup_unresolved : c.unresolved.Nodup := (Table.nodup_keys c.widgets).filter _

theorem isReady_iff {id : String} :
    c.isReady id = true ↔ ∀ owner, c.DependsOn id owner → c.isResolved owner = true :=
  List.all_eq_true

/-- Widgets out of date, each of which depends on the next one and the last on the first. -/
structure IsCycle (c : Coordinator H) (cycle : List String) : Prop where
  nodup : cycle.Nodup
  outdated : ∀ id ∈ cycle, id ∈ c.unresolved
  linked : cycle.IsChain c.DependsOn
  closed : ∃ first ∈ cycle.head?, ∃ last ∈ cycle.getLast?, c.DependsOn last first

/-- The path of a search, the latest widget first: each one depends on the one before it. -/
structure IsTrail (c : Coordinator H) (path : List String) : Prop where
  nodup : path.Nodup
  outdated : ∀ id ∈ path, id ∈ c.unresolved
  linked : path.IsChain fun later earlier => c.DependsOn earlier later

def IsOrdered (c : Coordinator H) : List String → Prop
  | [] => True
  | id :: rest =>
      id ∈ c.unresolved ∧
      (∀ owner, c.DependsOn id owner → c.isResolved owner = false → owner ∈ rest) ∧
      c.IsOrdered rest

/-- What a search for some widgets may find, given those that are finished. -/
def Explores (c : Coordinator H) (finished ids : List String) : Search → Prop
  | .error cycle => c.IsCycle cycle
  | .ok finished' =>
      finished ⊆ finished' ∧ c.IsOrdered finished' ∧
      ∀ id ∈ ids, c.isResolved id = false → id ∈ finished'

def Follows (c : Coordinator H) (path : List String) (id : String) : Prop :=
  c.widgets.contains id = true ∧ ∀ top ∈ path.head?, c.DependsOn top id

theorem IsTrail.cons {path : List String} {id : String} (h : c.IsTrail path)
    (hid : c.Follows path id) (hout : c.isResolved id = false) (hnew : id ∉ path) :
    c.IsTrail (id :: path) where
  nodup := List.nodup_cons.2 ⟨hnew, h.nodup⟩
  outdated := by
    intro x hx
    rcases List.mem_cons.1 hx with rfl | hx
    · exact mem_unresolved.2 ⟨hid.1, hout⟩
    · exact h.outdated x hx
  linked := h.linked.cons fun top htop => hid.2 top htop

/-- A path has no more widgets than are registered. -/
theorem IsTrail.length_le {path : List String} (h : c.IsTrail path) :
    path.length ≤ c.widgets.size := by
  have hsub : path ⊆ c.widgets.keys := fun id hid =>
    (Table.mem_keys ..).2 (mem_unresolved.1 (h.outdated id hid)).1
  have hle := (h.nodup.subperm hsub).length_le
  rwa [Table.length_keys] at hle

/-- The part of a path from a widget on that its latest one depends on closes a cycle. -/
theorem IsTrail.isCycle {path : List String} {id : String} (h : c.IsTrail path)
    (hid : c.Follows path id) (hmem : id ∈ path) : c.IsCycle (cycleOn path id) := by
  have hsuffix : cycleOn path id <:+ path.reverse := List.dropWhile_suffix _
  obtain ⟨earlier, later, hsplit⟩ := List.append_of_mem (List.mem_reverse.2 hmem)
  have hnodup : path.reverse.Nodup := List.pairwise_reverse.2 (h.nodup.imp Ne.symm)
  have hearlier : ∀ x ∈ earlier, (x != id) = true := by
    intro x hx
    rw [hsplit, List.nodup_append] at hnodup
    simpa using hnodup.2.2 x hx id List.mem_cons_self
  have hcycle : cycleOn path id = id :: later := by
    rw [cycleOn, hsplit, List.dropWhile_append_of_pos hearlier,
      List.dropWhile_cons_of_neg (by simp)]
  refine ⟨hnodup.sublist hsuffix.sublist, ?_, ?_, ?_⟩
  · intro x hx
    exact h.outdated x (List.mem_reverse.1 (hsuffix.subset hx))
  · exact (List.isChain_reverse.2 h.linked).suffix hsuffix
  · rw [hcycle]
    cases path with
    | nil => cases hmem
    | cons top below =>
      refine ⟨id, rfl, top, ?_, hid.2 top rfl⟩
      have hlast : (earlier ++ id :: later).getLast? = some top := by
        rw [← hsplit, List.getLast?_reverse]
        rfl
      rwa [List.getLast?_append_of_ne_nil _ (List.cons_ne_nil _ _)] at hlast

/-- A search through several widgets explores them if the search for each one does. -/
theorem searchAll_explores {search : String → List String → Search} {path : List String}
    (hpath : c.IsTrail path) {ids : List String} (hids : ∀ id ∈ ids, c.Follows path id)
    (hsearch : ∀ id finished, id ∈ ids → c.isResolved id = false → id ∉ path →
      c.IsOrdered finished → c.Explores finished [id] (search id finished))
    {finished : List String} (hfinished : c.IsOrdered finished) :
    c.Explores finished ids (c.searchAll search path ids finished) := by
  induction ids generalizing finished with
  | nil => exact ⟨List.Subset.refl _, hfinished, by simp⟩
  | cons id rest ih =>
    have hrest := fun {finished : List String} (hf : c.IsOrdered finished) =>
      ih (fun x hx => hids x (List.mem_cons_of_mem _ hx))
        (fun x f hx => hsearch x f (List.mem_cons_of_mem _ hx)) hf
    have hskip : (c.isResolved id = false → id ∈ finished) →
        c.Explores finished (id :: rest) (c.searchAll search path rest finished) := by
      intro hdone
      have hr := hrest hfinished
      cases hs : c.searchAll search path rest finished with
      | error cycle => rwa [hs] at hr
      | ok finished' =>
        rw [hs] at hr
        refine ⟨hr.1, hr.2.1, fun x hx hout => ?_⟩
        rcases List.mem_cons.1 hx with rfl | hx
        · exact hr.1 (hdone hout)
        · exact hr.2.2 x hx hout
    simp only [searchAll]
    split
    · rename_i hres
      exact hskip fun hout => by simp [hres] at hout
    · rename_i hres
      split
      · rename_i hmem
        exact hpath.isCycle (hids id List.mem_cons_self) (by simpa using hmem)
      · rename_i hnew
        split
        · rename_i hdone
          exact hskip fun _ => by simpa using hdone
        · have hone := hsearch id finished List.mem_cons_self (by simpa using hres)
            (by simpa using hnew) hfinished
          cases hs : search id finished with
          | error cycle =>
            rw [hs] at hone
            exact hone
          | ok finished' =>
            rw [hs] at hone
            have hr := hrest hone.2.1
            simp only
            cases hs' : c.searchAll search path rest finished' with
            | error cycle => rwa [hs'] at hr
            | ok finished'' =>
              rw [hs'] at hr
              refine ⟨List.Subset.trans hone.1 hr.1, hr.2.1, fun x hx hout => ?_⟩
              rcases List.mem_cons.1 hx with rfl | hx
              · exact hr.1 (hone.2.2 x List.mem_cons_self hout)
              · exact hr.2.2 x hx hout

/-- The search never runs out: a path that long would hold more widgets than there are. -/
theorem search_explores {n : Nat} {path : List String} {id : String} {finished : List String}
    (hpath : c.IsTrail path) (hsize : c.widgets.size ≤ path.length + n)
    (hid : c.Follows path id) (hout : c.isResolved id = false) (hnew : id ∉ path)
    (hfinished : c.IsOrdered finished) :
    c.Explores finished [id] (c.search n path id finished) := by
  induction n generalizing path id finished with
  | zero =>
    have hle := (hpath.cons hid hout hnew).length_le
    simp only [List.length_cons] at hle
    omega
  | succ n ih =>
    have htrail := hpath.cons hid hout hnew
    have hdeps : ∀ owner ∈ c.dependencies id, c.Follows (id :: path) owner := by
      intro owner howner
      obtain ⟨_, _, _, _, hreg⟩ := dependsOn_iff.1 howner
      refine ⟨hreg, fun top htop => ?_⟩
      obtain rfl : id = top := by simpa using htop
      exact howner
    have hall := searchAll_explores htrail hdeps
      (fun owner f howner ho hn hf => ih htrail (by simp only [List.length_cons]; omega)
        (hdeps owner howner) ho hn hf) hfinished
    simp only [search]
    cases hs : c.searchAll (c.search n (id :: path)) (id :: path) (c.dependencies id) finished with
    | error cycle =>
      rw [hs] at hall
      exact hall
    | ok finished' =>
      rw [hs] at hall
      refine ⟨fun x hx => List.mem_cons_of_mem _ (hall.1 hx), ⟨?_, hall.2.2, hall.2.1⟩, by simp⟩
      exact mem_unresolved.2 ⟨hid.1, hout⟩

theorem explores_searchAll_keys :
    c.Explores [] c.widgets.keys (c.searchAll (c.search c.widgets.size []) [] c.widgets.keys []) := by
  have htrail : c.IsTrail [] := ⟨List.nodup_nil, by simp, List.IsChain.nil⟩
  have hkeys : ∀ id ∈ c.widgets.keys, c.Follows [] id := fun id hid =>
    ⟨(Table.mem_keys ..).1 hid, by simp⟩
  exact searchAll_explores htrail hkeys
    (fun id f hid ho hn hf => search_explores htrail (by simp) (hkeys id hid) ho hn hf) trivial

theorem isCycle_of_findCycle {cycle : List String} (h : c.findCycle = some cycle) :
    c.IsCycle cycle := by
  have hall := explores_searchAll_keys (c := c)
  unfold findCycle at h
  split at h
  · rename_i hs
    cases h
    rwa [hs] at hall
  · cases h

/-- Without a cycle the widgets out of date can be put in an order of their dependencies. -/
theorem exists_isOrdered_of_findCycle (h : c.findCycle = none) :
    ∃ order, c.IsOrdered order ∧ ∀ id ∈ c.unresolved, id ∈ order := by
  have hall := explores_searchAll_keys (c := c)
  unfold findCycle at h
  split at h
  · cases h
  · rename_i order hs
    rw [hs] at hall
    refine ⟨order, hall.2.1, fun id hid => ?_⟩
    obtain ⟨hreg, hout⟩ := mem_unresolved.1 hid
    exact hall.2.2 id ((Table.mem_keys ..).2 hreg) hout

/-- The last widget of an order is held up by nothing. -/
theorem IsOrdered.exists_isReady {order : List String} (h : c.IsOrdered order)
    (hne : order ≠ []) : ∃ id ∈ c.unresolved, c.isReady id = true := by
  induction order with
  | nil => exact absurd rfl hne
  | cons id rest ih =>
    obtain ⟨hid, hdeps, hrest⟩ := h
    cases rest with
    | nil =>
      refine ⟨id, hid, isReady_iff.2 fun owner howner => ?_⟩
      by_contra hout
      exact absurd (hdeps owner howner (by simpa using hout)) List.not_mem_nil
    | cons next rest => exact ih hrest (List.cons_ne_nil _ _)

/-- If nothing that is out of date is ready, the search finds a cycle. -/
theorem exists_findCycle (hne : c.unresolved ≠ [])
    (hstuck : ∀ id ∈ c.unresolved, c.isReady id = false) :
    ∃ cycle, c.findCycle = some cycle ∧ c.IsCycle cycle := by
  cases h : c.findCycle with
  | some cycle => exact ⟨cycle, rfl, isCycle_of_findCycle h⟩
  | none =>
    obtain ⟨order, horder, hall⟩ := exists_isOrdered_of_findCycle h
    obtain ⟨id, hid⟩ := List.exists_mem_of_ne_nil _ hne
    obtain ⟨free, hfree, hready⟩ := horder.exists_isReady (List.ne_nil_of_mem (hall id hid))
    simp [hstuck free hfree] at hready

/-- The least of some widgets is one of them. -/
theorem least_mem (id : String) (rest : List String) : least id rest ∈ id :: rest := by
  induction rest generalizing id with
  | nil => simp [least]
  | cons other rest ih =>
    simp only [least]
    rcases List.mem_cons.1 (ih (if other < id then other else id)) with h | h
    · rw [h]
      split <;> simp
    · exact List.mem_cons_of_mem _ (List.mem_cons_of_mem _ h)

/-- The widget that is forced when nothing is ready lies on a cycle. -/
theorem choose_mem_cycle (first : String) (hne : c.unresolved ≠ [])
    (hstuck : ∀ id ∈ c.unresolved, c.isReady id = false) :
    ∃ cycle, c.IsCycle cycle ∧ (c.choose first).value ∈ cycle := by
  obtain ⟨cycle, hfind, hcycle⟩ := exists_findCycle hne hstuck
  refine ⟨cycle, hcycle, ?_⟩
  unfold choose
  rw [hfind]
  cases cycle with
  | nil =>
    obtain ⟨first, hfirst, -⟩ := hcycle.closed
    cases hfirst
  | cons id others => exact least_mem id others

/-! ### Absence of cycles -/

/-- A relation that always lowers a rank has no cycle. -/
theorem not_transGen_of_rank {α : Type} {r : α → α → Prop} (rank : α → Nat)
    (h : ∀ a b, r a b → rank b < rank a) (x : α) : ¬ Relation.TransGen r x x := by
  intro hcycle
  have hdrop : ∀ a b, Relation.TransGen r a b → rank b < rank a := by
    intro a b hab
    induction hab with
    | single hstep => exact h _ _ hstep
    | tail _ hstep ih => exact Nat.lt_trans (h _ _ hstep) ih
  exact Nat.lt_irrefl _ (hdrop x x hcycle)

def HeldUpBy (c : Coordinator H) (id owner : String) : Prop :=
  id ∈ c.unresolved ∧ owner ∈ c.unresolved ∧ c.DependsOn id owner

def Acyclic (c : Coordinator H) : Prop := ∀ id, ¬ Relation.TransGen c.HeldUpBy id id

theorem IsCycle.not_acyclic {cycle : List String} (h : c.IsCycle cycle) : ¬ c.Acyclic := by
  intro hacyclic
  obtain ⟨first, hfirst, last, hlast, hclosed⟩ := h.closed
  cases cycle with
  | nil => cases hfirst
  | cons id rest =>
    obtain rfl : id = first := by simpa using hfirst
    have hlinked : (id :: rest).IsChain c.HeldUpBy :=
      h.linked.imp_of_mem_imp fun a b ha hb hab => ⟨h.outdated a ha, h.outdated b hb, hab⟩
    have hend : (id :: rest).getLast (List.cons_ne_nil _ _) = last := by
      rw [List.getLast?_eq_some_getLast (List.cons_ne_nil _ _)] at hlast
      exact Option.some.inj hlast
    have hpath := List.relationReflTransGen_of_exists_isChain_cons rest hlinked hend
    have hback : c.HeldUpBy last id :=
      ⟨h.outdated last (List.mem_of_getLast? hlast), h.outdated id List.mem_cons_self, hclosed⟩
    exact hacyclic id (.tail' hpath hback)

end Choreography.Coordinator
