import Choreography.FileStore
import Mathlib.Data.List.Basic
import Mathlib.Data.List.Induction

/-! # Trees of files

In a tree every file and directory is inside of a directory. Making directories adds directories and
changes nothing else. A file that is written is found at its path afterwards, and the files at other
places stay as they are. -/
namespace Choreography

theorem Except.bind_eq_ok_iff {ε α β : Type} {x : Except ε α} {f : α → Except ε β} {b : β} :
    (x >>= f) = .ok b ↔ ∃ a, x = .ok a ∧ f a = .ok b := by
  cases x with
  | error e => exact ⟨fun h => (by cases h), fun ⟨_, h, _⟩ => (by cases h)⟩
  | ok a => exact ⟨fun h => ⟨a, rfl, h⟩, fun ⟨_, h, h'⟩ => (by cases h; exact h')⟩

theorem Assoc.mem_of_find? {α β : Type} [DecidableEq α] {key : α} {value : β}
    {entries : List (α × β)} (h : find? key entries = some value) : (key, value) ∈ entries := by
  induction entries with
  | nil => cases h
  | cons entry rest ih =>
    obtain ⟨k, v⟩ := entry
    simp only [find?] at h
    split at h
    · rename_i heq
      cases h
      exact heq ▸ List.mem_cons_self
    · exact List.mem_cons_of_mem _ (ih h)

namespace FilePath

theorem parts_slash (a b : String) : parts (a ++ "/" ++ b) = parts a ++ parts b := by
  unfold parts
  rw [String.append_assoc, String.toList_append, String.toList_append]
  change ((a.toList ++ '/' :: b.toList).splitOn '/').map _ = _
  rw [List.splitOn_append_cons_self, List.map_append]

theorem parts_of_not_mem {name : String} (h : '/' ∉ name.toList) : parts name = [name] := by
  unfold parts
  rw [List.splitOn_eq_singleton h, List.map_singleton, String.ofList_toList]

theorem parts_intercalate {names : List String} (hne : names ≠ [])
    (h : ∀ name ∈ names, '/' ∉ name.toList) : parts ("/".intercalate names) = names := by
  induction names with
  | nil => exact absurd rfl hne
  | cons name rest ih =>
    obtain ⟨hname, hrest⟩ := List.forall_mem_cons.mp h
    cases rest with
    | nil => rw [String.intercalate_singleton, parts_of_not_mem hname]
    | cons next rest =>
      rw [String.intercalate_cons_cons, parts_slash, parts_of_not_mem hname,
        ih (List.cons_ne_nil _ _) hrest, List.singleton_append]

theorem intercalate_concat {names : List String} (hne : names ≠ []) (name : String) :
    "/".intercalate (names ++ [name]) = "/".intercalate names ++ "/" ++ name := by
  induction names with
  | nil => exact absurd rfl hne
  | cons first rest ih =>
    cases rest with
    | nil => rw [List.singleton_append, String.intercalate_cons_cons, String.intercalate_singleton,
        String.intercalate_singleton]
    | cons next rest =>
      rw [List.cons_append, List.cons_append, String.intercalate_cons_cons, ← List.cons_append,
        ih (List.cons_ne_nil _ _), String.intercalate_cons_cons]
      simp only [String.append_assoc]

structure IsName (name : String) : Prop where
  nonempty : name ≠ ""
  other : name ≠ "." ∧ name ≠ ".."
  whole : '/' ∉ name.toList

variable {names : List String} {name : String}

instance (name : String) : Decidable (IsName name) :=
  decidable_of_iff (name ≠ "" ∧ (name ≠ "." ∧ name ≠ "..") ∧ '/' ∉ name.toList)
    ⟨fun ⟨h, h', h''⟩ => ⟨h, h', h''⟩, fun ⟨h, h', h''⟩ => ⟨h, h', h''⟩⟩

theorem startsWith_intercalate (h : ∀ n ∈ names, IsName n) :
    ("/".intercalate names).startsWith "/" = false := by
  cases names with
  | nil => simp [String.startsWith_string_eq_false_iff]
  | cons first rest =>
    have hparts := parts_intercalate (List.cons_ne_nil first rest) fun n hn => (h n hn).whole
    rw [String.startsWith_string_eq_false_iff]
    rintro ⟨after, hafter⟩
    have hpath : "/".intercalate (first :: rest) = "" ++ "/" ++ String.ofList after := by
      apply String.toList_injective
      simp [← hafter]
    rw [hpath, parts_slash] at hparts
    exact (h first List.mem_cons_self).nonempty (List.cons.inj hparts).1.symm

theorem parent?_intercalate (h : ∀ n ∈ names ++ [name], IsName n) :
    parent? ("/".intercalate (names ++ [name])) = some ("/".intercalate names) := by
  have hparts := parts_intercalate (List.concat_ne_nil name names) fun n hn => (h n hn).whole
  have hnamed : ((parts ("/".intercalate (names ++ [name]))).zipIdx.filter fun p =>
      p.1 != "" && (p.1 != "." || p.2 == 0)) = (names ++ [name]).zipIdx := by
    rw [hparts, List.filter_eq_self]
    intro p hp
    have hname := h p.1 (List.fst_mem_of_mem_zipIdx hp)
    simp [hname.nonempty, hname.other.1]
  have hlast : (names ++ [name]).zipIdx = names.zipIdx ++ [(name, names.length)] := by
    rw [List.zipIdx_append, Nat.zero_add]
    rfl
  unfold parent?
  simp only [hnamed, startsWith_intercalate h, hlast, List.getLast?_concat, List.dropLast_concat,
    List.zipIdx_map_fst, Bool.false_eq_true, if_false]

theorem fault?_eq_none_iff {path : String} : fault? path = none ↔
    path ≠ "" ∧ '\x00' ∉ path.toList ∧ path.utf8ByteSize < 4096 ∧
      ∀ part ∈ parts path, part.utf8ByteSize ≤ 255 := by
  unfold fault?
  simp only [List.contains_iff_mem, Bool.or_eq_true, decide_eq_true_eq, List.any_eq_true,
    String.isEmpty_iff]
  grind

/-- The way to a component has no fault that the whole path has not. -/
theorem fault?_intercalate (h : ∀ n ∈ names, IsName n) (hne : names ≠ [])
    (hfault : fault? ("/".intercalate (names ++ [name])) = none) :
    fault? ("/".intercalate names) = none := by
  have hparts := parts_intercalate hne fun n hn => (h n hn).whole
  rw [fault?_eq_none_iff, intercalate_concat hne, parts_slash] at hfault
  obtain ⟨-, hnul, hsize, hpartSizes⟩ := hfault
  refine fault?_eq_none_iff.mpr ⟨fun hempty => ?_, ?_, ?_, ?_⟩
  · rw [hempty] at hparts
    exact (h "" (hparts ▸ List.mem_singleton_self "")).nonempty rfl
  · simp only [String.toList_append, List.mem_append, not_or] at hnul
    exact hnul.1.1
  · rw [String.utf8ByteSize_append, String.utf8ByteSize_append] at hsize
    omega
  · exact fun part hpart => hpartSizes part (List.mem_append_left _ hpart)

end FilePath

namespace FileTree
variable {t t' t'' : FileTree} {place other : List String} {path part text : String}

def Rooted (t : FileTree) : Prop :=
  ∀ place name, (t.node? (place ++ [name])).isSome = true → t.node? place = some .directory

def fileAt? (t : FileTree) (place : List String) : Option String :=
  match t.node? place with
  | some (.file text) => some text
  | _ => none

theorem fileAt?_eq_some_iff : t.fileAt? place = some text ↔ t.node? place = some (.file text) := by
  unfold fileAt?
  split <;> simp_all

theorem node?_root (t : FileTree) : t.node? [] = some .directory := by simp [node?]

theorem node?_assign {n : FileNode} (h : t.node? place ≠ some .directory) :
    (t.assign place n).node? other = if other = place then some n else t.node? other := by
  have hkept : ¬ (place.isPrefixOf t.home || place.isPrefixOf t.current) = true := by
    intro hprefix
    exact h (by rw [node?, if_pos hprefix])
  by_cases heq : other = place
  · subst heq
    rw [if_pos rfl, node?, assign, if_neg hkept, Assoc.find?_assign_self]
  · rw [if_neg heq, node?, node?, assign, Assoc.find?_assign_ne _ _ heq]

/-- Everything is in a directory if each of the nodes is. -/
theorem rooted_of_nodes (hnodes : ∀ n ∈ t.nodes, t.node? n.1.dropLast = some .directory) :
    t.Rooted := by
  intro place name hsome
  unfold node? at hsome
  split at hsome
  · rename_i hkept
    have hplace : (place.isPrefixOf t.home || place.isPrefixOf t.current) = true := by
      simp only [Bool.or_eq_true, List.isPrefixOf_iff_prefix] at hkept ⊢
      exact hkept.imp (List.prefix_append place [name]).trans (List.prefix_append place [name]).trans
    rw [node?, if_pos hplace]
  · obtain ⟨n, hn⟩ := Option.isSome_iff_exists.mp hsome
    simpa using hnodes _ (Assoc.mem_of_find? hn)

/-- A new file or directory in a directory. -/
theorem Rooted.assign {n : FileNode} (h : t.Rooted) (hplace : t.node? place = some .directory)
    (hnew : t.node? (place ++ [part]) ≠ some .directory) :
    (t.assign (place ++ [part]) n).Rooted := by
  intro inner name hsome
  rw [node?_assign hnew] at hsome ⊢
  have hinner : t.node? inner = some .directory := by
    split at hsome
    · rename_i heq
      rwa [(List.append_inj' heq rfl).1]
    · exact h inner name hsome
  rw [if_neg, hinner]
  rintro rfl
  exact hnew hinner

theorem Rooted.isSome_dropLast (ht : t.Rooted) (h : (t.node? place).isSome = true) :
    (t.node? place.dropLast).isSome = true := by
  induction place using List.reverseRecOn with
  | nil => exact h
  | append_singleton outer name _ =>
    rw [List.dropLast_concat, ht outer name h]
    rfl

/-! ### Steps along a path -/

def stepFrom (place : List String) (part : String) : List String :=
  if part = "" ∨ part = "." then place else if part = ".." then place.dropLast else place ++ [part]

theorem enter_of_directory (ht : t.Rooted) (h : t.node? place = some .directory) (part : String) :
    t.enter place part =
      if (t.node? (stepFrom place part)).isSome then .ok (stepFrom place part)
      else .error .notFound := by
  have hsome : (t.node? place).isSome = true := by simp [h]
  unfold enter stepFrom
  rw [h]
  by_cases hsame : part = "" ∨ part = "."
  · simp only [if_pos hsame, hsome, if_true]
  · by_cases hup : part = ".."
    · simp only [if_neg hsame, if_pos hup, ht.isSome_dropLast hsome, if_true]
    · simp only [if_neg hsame, if_neg hup]

/-- A step leads from a directory to something that exists. -/
theorem enter_eq_ok_iff (ht : t.Rooted) : t.enter place part = .ok other ↔
    t.node? place = some .directory ∧ stepFrom place part = other ∧
      (t.node? other).isSome = true := by
  constructor
  · intro h
    have hplace : t.node? place = some .directory := by
      unfold enter at h
      split at h
      · assumption
      · cases h
      · cases h
    rw [enter_of_directory ht hplace] at h
    split at h
    · cases h
      exact ⟨hplace, rfl, ‹_›⟩
    · cases h
  · rintro ⟨hplace, rfl, hsome⟩
    rw [enter_of_directory ht hplace, if_pos hsome]

/-- At something that exists a step is in want of nothing but an entry of a directory. -/
theorem enter_eq_notFound (ht : t.Rooted) (h : t.enter place part = .error .notFound)
    (hsome : (t.node? place).isSome = true) :
    t.node? place = some .directory ∧ t.node? (place ++ [part]) = none := by
  have hplace : t.node? place = some .directory := by
    unfold enter at h
    split at h
    · assumption
    · cases h
    · rename_i hnone
      rw [hnone] at hsome
      cases hsome
  refine ⟨hplace, ?_⟩
  rw [enter_of_directory ht hplace] at h
  split at h
  · cases h
  · rename_i hmissing
    unfold stepFrom at hmissing
    split at hmissing
    · exact absurd hsome hmissing
    · split at hmissing
      · exact absurd (ht.isSome_dropLast hsome) hmissing
      · simpa using hmissing

/-! ### Making directories -/

structure Extends (t t' : FileTree) : Prop where
  whereabouts : t'.toWhereabouts = t.toWhereabouts
  node : ∀ place, t'.node? place = t.node? place ∨
    t.node? place = none ∧ t'.node? place = some .directory

namespace Extends

theorem refl (t : FileTree) : t.Extends t := ⟨rfl, fun _ => .inl rfl⟩

theorem trans (h : t.Extends t') (h' : t'.Extends t'') : t.Extends t'' where
  whereabouts := h'.whereabouts.trans h.whereabouts
  node place := by
    rcases h.node place with heq | ⟨hnone, hnew⟩
    · rw [← heq]
      exact h'.node place
    · rcases h'.node place with heq | ⟨hnone', -⟩
      · exact .inr ⟨hnone, heq.trans hnew⟩
      · rw [hnew] at hnone'
        cases hnone'

theorem fileAt? (h : t.Extends t') (place : List String) : t'.fileAt? place = t.fileAt? place := by
  unfold FileTree.fileAt?
  rcases h.node place with heq | ⟨hnone, hnew⟩
  · rw [heq]
  · rw [hnone, hnew]

theorem start (h : t.Extends t') (path : String) : t'.start path = t.start path := by
  unfold FileTree.start
  rw [h.whereabouts]

end Extends

theorem enterNew_spec (ht : t.Rooted) (hplace : (t.node? place).isSome = true)
    {after : FileTree × List String} (h : enterNew (t, place) part = .ok after) :
    t.Extends after.1 ∧ after.1.Rooted ∧ (after.1.node? after.2).isSome = true := by
  simp only [enterNew] at h
  split at h
  · rename_i next hnext
    cases h
    exact ⟨.refl t, ht, ((enter_eq_ok_iff ht).mp hnext).2.2⟩
  · rename_i hmissing
    cases h
    obtain ⟨hdirectory, hnone⟩ := enter_eq_notFound ht hmissing hplace
    have hnew : t.node? (place ++ [part]) ≠ some .directory := by simp [hnone]
    refine ⟨⟨rfl, fun other => ?_⟩, ht.assign hdirectory hnew, ?_⟩
    · rw [node?_assign hnew]
      split
      · rename_i heq
        exact .inr ⟨heq ▸ hnone, rfl⟩
      · exact .inl rfl
    · rw [node?_assign hnew, if_pos rfl]
      rfl
  · cases h

theorem foldlM_enterNew_spec (ht : t.Rooted) (hplace : (t.node? place).isSome = true)
    {parts : List String} {after : FileTree × List String}
    (h : parts.foldlM enterNew (t, place) = .ok after) : t.Extends after.1 ∧ after.1.Rooted := by
  induction parts generalizing t place with
  | nil =>
    cases h
    exact ⟨.refl t, ht⟩
  | cons part rest ih =>
    rw [List.foldlM_cons, Except.bind_eq_ok_iff] at h
    obtain ⟨middle, hstep, hrest⟩ := h
    obtain ⟨hextends, hrooted, hsome⟩ := enterNew_spec ht hplace hstep
    obtain ⟨hextends', hrooted'⟩ := ih hrooted hsome hrest
    exact ⟨hextends.trans hextends', hrooted'⟩

theorem isSome_node?_start (t : FileTree) (path : String) :
    (t.node? (t.start path)).isSome = true := by
  unfold start
  split
  · simp [node?_root]
  · simp [node?]

/-- Directories are made without harm to what there is. -/
theorem createDirectories_spec (ht : t.Rooted) (h : t.createDirectories path = .ok t') :
    t.Extends t' ∧ t'.Rooted := by
  unfold createDirectories at h
  split at h
  · cases h
    exact ⟨.refl t, ht⟩
  · split at h
    · cases h
    · obtain ⟨⟨after, place⟩, hwalk, hlast⟩ := Except.bind_eq_ok_iff.mp h
      have hspec := foldlM_enterNew_spec ht (isSome_node?_start t path) hwalk
      simp only at hlast
      split at hlast
      · cases hlast
      · cases hlast
        exact hspec

/-! ### Making what is missing -/

section
open FilePath
variable {names : List String} {name : String}

theorem stepFrom_of_isName (h : IsName name) (place : List String) :
    stepFrom place name = place ++ [name] := by
  simp only [stepFrom, h.nonempty, h.other.1, h.other.2, or_self, if_false]

theorem directory_of_fileAt?_eq_none (hsome : (t.node? place).isSome = true)
    (h : t.fileAt? place = none) : t.node? place = some .directory := by
  unfold fileAt? at h
  cases hnode : t.node? place with
  | none => simp [hnode] at hsome
  | some n =>
    cases n with
    | directory => rfl
    | file text => simp [hnode] at h

/-- From a directory a name leads to what is there, or to a new directory. -/
theorem exists_enterNew (ht : t.Rooted) (hplace : t.node? place = some .directory)
    (h : IsName name) :
    ∃ t', enterNew (t, place) name = .ok (t', place ++ [name]) ∧ t.Extends t' ∧ t'.Rooted ∧
      (t.fileAt? (place ++ [name]) = none → t'.node? (place ++ [name]) = some .directory) ∧
      ∀ other ≠ place ++ [name], t'.node? other = t.node? other := by
  have hstep : enterNew (t, place) name =
      if (t.node? (place ++ [name])).isSome then .ok (t, place ++ [name])
      else .ok (t.assign (place ++ [name]) .directory, place ++ [name]) := by
    simp only [enterNew, enter_of_directory ht hplace, stepFrom_of_isName h]
    cases (t.node? (place ++ [name])).isSome <;> rfl
  by_cases hsome : (t.node? (place ++ [name])).isSome = true
  · rw [if_pos hsome] at hstep
    exact ⟨t, hstep, .refl t, ht, directory_of_fileAt?_eq_none hsome, fun _ _ => rfl⟩
  · rw [if_neg hsome] at hstep
    have hnew : t.node? (place ++ [name]) ≠ some .directory := by
      rintro hdirectory
      exact hsome (by rw [hdirectory]; rfl)
    obtain ⟨hextends, hrooted, -⟩ := enterNew_spec ht (by rw [hplace]; rfl) hstep
    exact ⟨_, hstep, hextends, hrooted, fun _ => by rw [node?_assign hnew, if_pos rfl],
      fun other hother => by rw [node?_assign hnew, if_neg hother]⟩

theorem enterNew_of_file (hplace : t.node? place = some (.file text)) (name : String) :
    enterNew (t, place) name = .error .notDirectory := by
  simp only [enterNew, enter, hplace]

theorem Rooted.directory_of_prefix (ht : t.Rooted) (h : t.node? place = some .directory)
    (hinner : other <+: place) : t.node? other = some .directory := by
  obtain ⟨rest, rfl⟩ := hinner
  induction rest using List.reverseRecOn with
  | nil => rwa [List.append_nil] at h
  | append_singleton rest name ih =>
    rw [← List.append_assoc] at h
    exact ih (ht _ name (by rw [h]; rfl))

/-- A way of names is made where no file stands in it, and nothing else is. -/
theorem foldlM_enterNew_of_names (ht : t.Rooted) (hplace : t.node? place = some .directory)
    (hnames : ∀ n ∈ names, IsName n)
    (hway : ∀ above, place <+: above → above <+: place ++ names → t.fileAt? above = none) :
    ∃ t', names.foldlM enterNew (t, place) = .ok (t', place ++ names) ∧ t.Extends t' ∧ t'.Rooted ∧
      t'.node? (place ++ names) = some .directory ∧
      ∀ other, ¬ other <+: place ++ names → t'.node? other = t.node? other := by
  induction names generalizing t place with
  | nil => exact ⟨t, by rw [List.append_nil]; rfl, .refl t, ht, by rwa [List.append_nil],
      fun _ _ => rfl⟩
  | cons name rest ih =>
    obtain ⟨hname, hrest⟩ := List.forall_mem_cons.mp hnames
    obtain ⟨next, hstep, hextends, hrooted, hdirectory, hsame⟩ := exists_enterNew ht hplace hname
    rw [List.append_cons] at hway ⊢
    have hstart : place ++ [name] <+: place ++ [name] ++ rest := List.prefix_append _ _
    have hlater : ∀ {above}, place ++ [name] <+: above → place <+: above :=
      (List.prefix_append place [name]).trans
    rw [List.foldlM_cons, hstep]
    obtain ⟨t', hwalk, hextends', hrooted', hend, hothers⟩ := ih hrooted
      (hdirectory (hway _ (hlater List.prefix_rfl) hstart)) hrest fun above h h' =>
        (hextends.fileAt? above).trans (hway above (hlater h) h')
    refine ⟨t', hwalk, hextends.trans hextends', hrooted', hend, fun other hother => ?_⟩
    refine (hothers other hother).trans (hsame other ?_)
    rintro rfl
    exact hother hstart

/-- A way of names that has been made to a directory had no file in it. -/
theorem fileAt?_of_foldlM_enterNew (ht : t.Rooted) (hplace : t.node? place = some .directory)
    (hnames : ∀ n ∈ names, IsName n) {after : FileTree × List String}
    (h : names.foldlM enterNew (t, place) = .ok after) (hend : after.1.fileAt? after.2 = none) :
    ∀ above, place <+: above → above <+: place ++ names → t.fileAt? above = none := by
  induction names generalizing t place with
  | nil =>
    cases h
    intro above hfrom hto
    rw [List.append_nil] at hto
    rwa [← hfrom.eq_of_length_le hto.length_le]
  | cons name rest ih =>
    obtain ⟨hname, hrest⟩ := List.forall_mem_cons.mp hnames
    obtain ⟨next, hstep, hextends, hrooted, hdirectory, -⟩ := exists_enterNew ht hplace hname
    rw [List.foldlM_cons, hstep] at h
    -- Nothing is made in a file, so the way would end with it.
    have hfile : t.fileAt? (place ++ [name]) = none := by
      rw [← hextends.fileAt?]
      cases hnode : next.fileAt? (place ++ [name]) with
      | none => rfl
      | some text =>
        cases rest with
        | nil =>
          cases h
          exact hnode.symm.trans hend
        | cons part rest =>
          have hstuck := enterNew_of_file (fileAt?_eq_some_iff.mp hnode) part
          change ((enterNew (next, place ++ [name]) part) >>= fun s => rest.foldlM enterNew s) = _ at h
          rw [hstuck] at h
          cases h
    intro above hfrom hto
    rw [List.append_cons] at hto
    by_cases hbeyond : place ++ [name] <+: above
    · rw [← hextends.fileAt?]
      exact ih hrooted (hdirectory hfile) hrest h above hbeyond hto
    · have hshort : above <+: place ++ [name] :=
        (List.prefix_or_prefix_of_prefix hto (List.prefix_append _ rest)).resolve_right hbeyond
      rcases List.prefix_concat_iff.mp hshort with rfl | hshort
      · exact absurd List.prefix_rfl hbeyond
      · rw [← hfrom.eq_of_length_le hshort.length_le, fileAt?, hplace]

theorem foldlM_enter_of_names (ht : t.Rooted) (hnames : ∀ n ∈ names, IsName n)
    (hend : t.node? (place ++ names) = some .directory) :
    names.foldlM t.enter place = .ok (place ++ names) := by
  induction names generalizing place with
  | nil => rw [List.append_nil]; rfl
  | cons name rest ih =>
    obtain ⟨hname, hrest⟩ := List.forall_mem_cons.mp hnames
    have hplace := ht.directory_of_prefix hend (List.prefix_append _ _)
    rw [List.append_cons] at hend ⊢
    have hnext := ht.directory_of_prefix hend (List.prefix_append _ _)
    rw [List.foldlM_cons, (enter_eq_ok_iff ht).mpr
      ⟨hplace, stepFrom_of_isName hname place, by rw [hnext]; rfl⟩]
    exact ih hrest hend

theorem node?_current (t : FileTree) : t.node? t.current = some .directory := by simp [node?]

theorem start_intercalate (hnames : ∀ n ∈ names, IsName n) :
    t.start ("/".intercalate names) = t.current := by
  rw [start, startsWith_intercalate hnames]
  rfl

theorem createDirectories_intercalate (hnames : ∀ n ∈ names, IsName n)
    (hfault : names ≠ [] → fault? ("/".intercalate names) = none) :
    t.createDirectories ("/".intercalate names) = .ok t' ↔
      ∃ place, names.foldlM enterNew (t, t.current) = .ok (t', place) ∧ t'.fileAt? place = none := by
  cases names with
  | nil =>
    have hcurrent : t.fileAt? t.current = none := by rw [fileAt?, node?_current]
    constructor
    · intro h
      cases h
      exact ⟨_, rfl, hcurrent⟩
    · rintro ⟨place, hwalk, -⟩
      cases hwalk
      rfl
  | cons first rest =>
    have hne := List.cons_ne_nil first rest
    have hparts := parts_intercalate hne fun n hn => (hnames n hn).whole
    have hnonempty := (fault?_eq_none_iff.mp (hfault hne)).1
    unfold createDirectories
    rw [if_neg (by rwa [String.isEmpty_iff]), hfault hne, hparts, start_intercalate hnames]
    simp only [Except.bind_eq_ok_iff, Prod.exists]
    constructor
    · rintro ⟨after, place, hwalk, hlast⟩
      split at hlast
      · cases hlast
      · rename_i hfile
        cases hlast
        refine ⟨place, hwalk, Option.eq_none_iff_forall_ne_some.mpr fun text htext => ?_⟩
        exact hfile text (fileAt?_eq_some_iff.mp htext)
    · rintro ⟨place, hwalk, hfile⟩
      refine ⟨t', place, hwalk, ?_⟩
      split
      · rename_i text hnode
        rw [fileAt?_eq_some_iff.mpr hnode] at hfile
        cases hfile
      · rfl

/-- The target of a path of names whose directory is there. -/
theorem target_intercalate (ht : t.Rooted) (hnames : ∀ n ∈ names ++ [name], IsName n)
    (hfault : fault? ("/".intercalate (names ++ [name])) = none)
    (hend : t.node? (t.current ++ names) = some .directory) :
    t.target ("/".intercalate (names ++ [name])) = .ok (t.current ++ names ++ [name]) := by
  have hparts := parts_intercalate (List.concat_ne_nil name names) fun n hn => (hnames n hn).whole
  have hname := hnames name List.mem_concat_self
  have hwalk := foldlM_enter_of_names ht
    (fun n hn => hnames n (List.mem_append_left _ hn)) hend
  unfold target
  rw [hfault, hparts, List.getLast?_concat, start_intercalate hnames]
  simp only [List.dropLast_concat, hwalk]
  change (if name = "" ∨ name = "." ∨ name = ".." then _ else _) = _
  rw [if_neg (by simp [hname.nonempty, hname.other])]
  simp only [hend]

end

/-! ### Writing files -/

/-- A file may be written inside of a directory. -/
theorem target_eq_ok (h : t.target path = .ok place) :
    FilePath.fault? path = none ∧ ∃ above name, place = above ++ [name] ∧
      (FilePath.parts path).getLast? = some name ∧
      (FilePath.parts path).dropLast.foldlM t.enter (t.start path) = .ok above ∧
      stepFrom above name = above ++ [name] ∧ t.node? above = some .directory := by
  unfold target at h
  split at h
  · cases h
  · cases h
  · rename_i name hfault hlast
    obtain ⟨above, hwalk, h⟩ := Except.bind_eq_ok_iff.mp h
    split at h
    · cases h
    · rename_i hname
      obtain ⟨hempty, hsame, hup⟩ : name ≠ "" ∧ name ≠ "." ∧ name ≠ ".." := by
        simpa only [not_or] using hname
      have hstep : stepFrom above name = above ++ [name] := by
        simp only [stepFrom, hempty, hsame, hup, or_self, if_false]
      split at h
      · cases h
        exact ⟨hfault, above, name, rfl, hlast, hwalk, hstep, ‹_›⟩
      · cases h
      · cases h

theorem write_eq_ok_iff : t.write path text = .ok t' ↔
    ∃ place, t.target path = .ok place ∧ t.node? place ≠ some .directory ∧
      t' = t.assign place (.file text) := by
  unfold write
  rw [Except.bind_eq_ok_iff]
  refine exists_congr fun place => and_congr_right fun _ => ?_
  split
  · rename_i hdirectory
    simp [hdirectory]
  · rename_i hother
    rw [Except.ok.injEq]
    exact ⟨fun h => ⟨hother, h.symm⟩, fun h => h.2.symm⟩

/-- A path leads to the place of its file if it leads to the directory of this one. -/
theorem locate_of_walk (ht : t.Rooted) {above : List String} {name : String}
    (hfault : FilePath.fault? path = none) (hlast : (FilePath.parts path).getLast? = some name)
    (hwalk : (FilePath.parts path).dropLast.foldlM t.enter (t.start path) = .ok above)
    (habove : t.node? above = some .directory) (hstep : stepFrom above name = place)
    (hsome : (t.node? place).isSome = true) : t.locate path = .ok place := by
  have hparts := List.dropLast_append_getLast? name hlast
  have henter : t.enter above name = .ok place := (enter_eq_ok_iff ht).mpr ⟨habove, hstep, hsome⟩
  unfold locate
  rw [hfault]
  change (FilePath.parts path).foldlM t.enter (t.start path) = _
  rw [← hparts, List.foldlM_append, hwalk]
  change [name].foldlM t.enter above = _
  rw [List.foldlM_cons, henter]
  rfl

/-- A new file is in nobody's way. -/
theorem foldlM_enter_assign (ht : t.Rooted) (ht' : (t.assign other (.file text)).Rooted)
    (hnew : t.node? other ≠ some .directory) {parts last : List String}
    (h : parts.foldlM t.enter place = .ok last) :
    parts.foldlM (t.assign other (.file text)).enter place = .ok last := by
  induction parts generalizing place with
  | nil => exact h
  | cons part rest ih =>
    rw [List.foldlM_cons, Except.bind_eq_ok_iff] at h ⊢
    obtain ⟨next, hstep, hrest⟩ := h
    obtain ⟨hplace, hnext, hsome⟩ := (enter_eq_ok_iff ht).mp hstep
    refine ⟨next, (enter_eq_ok_iff ht').mpr ⟨?_, hnext, ?_⟩, ih hrest⟩
    · rw [node?_assign hnew, if_neg, hplace]
      rintro rfl
      exact hnew hplace
    · rw [node?_assign hnew]
      split
      · rfl
      · exact hsome

/-- A path leads to the file that was written under it. -/
theorem locate_assign (ht : t.Rooted) (htarget : t.target path = .ok place)
    (hnew : t.node? place ≠ some .directory) :
    (t.assign place (.file text)).locate path = .ok place := by
  obtain ⟨hfault, above, name, rfl, hlast, hwalk, hstep, habove⟩ := target_eq_ok htarget
  have hrooted : (t.assign (above ++ [name]) (.file text)).Rooted := ht.assign habove hnew
  refine locate_of_walk hrooted hfault hlast (foldlM_enter_assign ht hrooted hnew hwalk) ?_ hstep ?_
  · rw [node?_assign hnew, if_neg (by simp), habove]
  · rw [node?_assign hnew, if_pos rfl]
    rfl

theorem read_eq_ok_iff : t.read path = .ok text ↔
    ∃ place, t.locate path = .ok place ∧ t.fileAt? place = some text := by
  unfold read
  rw [Except.bind_eq_ok_iff]
  refine exists_congr fun place => and_congr_right fun _ => ?_
  rw [fileAt?_eq_some_iff]
  split
  · rename_i hfile
    rw [hfile]
    simp
  · rename_i hdirectory
    simp [hdirectory]
  · rename_i hnone
    simp [hnone]

/-- What is written is read, and the files at other places stay as they are. -/
theorem write_spec (ht : t.Rooted) (h : t.write path text = .ok t') :
    t'.read path = .ok text ∧ ∃ place, t.target path = .ok place ∧
      t.node? place ≠ some .directory ∧ t'.locate path = .ok place ∧
      ∀ other, t'.fileAt? other = if other = place then some text else t.fileAt? other := by
  obtain ⟨place, htarget, hnew, rfl⟩ := write_eq_ok_iff.mp h
  have hlocate : (t.assign place (.file text)).locate path = .ok place :=
    locate_assign ht htarget hnew
  have hfiles : ∀ other, (t.assign place (.file text)).fileAt? other =
      if other = place then some text else t.fileAt? other := by
    intro other
    unfold fileAt?
    rw [node?_assign hnew]
    by_cases heq : other = place
    · simp only [if_pos heq]
    · simp only [if_neg heq]
  exact ⟨read_eq_ok_iff.mpr ⟨place, hlocate, by rw [hfiles, if_pos rfl]⟩, place, htarget, hnew,
    hlocate, hfiles⟩

end FileTree
end Choreography
