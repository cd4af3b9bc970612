import Choreography.Proofs.FileTrees
import Choreography.SettingsFile

/-! # Settings in trees of files

What loading and saving settings come to in a tree of files: the settings that are found under a
path, and the tree that saving leaves behind. -/
namespace Choreography
namespace FileTree

theorem bind_apply {α β : Type} (x : StateM FileTree α) (f : α → StateM FileTree β)
    (t : FileTree) : (x >>= f) t = f (x t).1 (x t).2 := rfl

theorem branch_apply {α : Type} (b : Bool) (x y : StateM FileTree α) (t : FileTree) :
    (if b = true then x else y) t = if b = true then x t else y t := by
  cases b <;> rfl

theorem get_apply (t : FileTree) : (get : StateM FileTree FileTree) t = (t, t) := rfl

theorem home_apply (t : FileTree) : (FileStore.home : StateM FileTree String) t = (t.homePath, t) :=
  rfl

theorem isPresent_apply (t : FileTree) (path : String) :
    (FileStore.isPresent path : StateM FileTree Bool) t = (t.isPresent path, t) := rfl

def changed (t : FileTree) : Except FileFault FileTree → Except FileFault Unit × FileTree
  | .ok t' => (.ok (), t')
  | .error fault => (.error fault, t)

theorem createDirectories_apply (t : FileTree) (path : String) :
    (FileStore.createDirectories path : StateM FileTree _) t =
      t.changed (t.createDirectories path) := by
  simp only [FileStore.createDirectories, bind_apply, get_apply]
  cases t.createDirectories path <;> rfl

theorem write_apply (t : FileTree) (path text : String) :
    (FileStore.write path text : StateM FileTree _) t = t.changed (t.write path text) := by
  simp only [FileStore.write, bind_apply, get_apply]
  cases t.write path text <;> rfl

end FileTree

namespace SettingsFile
open FileTree

def prepared (t : FileTree) (path : String) : Except FileFault FileTree :=
  match FilePath.parent? path with
  | some parent => t.createDirectories parent
  | none => .ok t

theorem prepare_apply (t : FileTree) (path : String) :
    (prepare path : StateM FileTree _) t = t.changed (prepared t path) := by
  unfold prepare prepared
  cases FilePath.parent? path with
  | some parent => exact createDirectories_apply t parent
  | none => rfl

def loaded (t : FileTree) (path : String) : Except Failure Settings :=
  if t.isPresent path then (lift (t.read path)).bind parse else .ok {}

theorem load_apply (t : FileTree) (path : String) :
    (load path : StateM FileTree _) t = (loaded t (expandTilde t.homePath path), t) := by
  unfold load loaded
  simp only [bind_apply, home_apply]
  rw [branch_apply]
  split <;> rename_i hpresent <;> rw [isPresent_apply] at hpresent
  · rw [if_pos hpresent]
    rfl
  · rw [if_neg hpresent]
    rfl

theorem loaded_of_read {t : FileTree} {path text : String} (h : t.read path = .ok text) :
    loaded t path = parse text := by
  obtain ⟨place, hlocate, -⟩ := read_eq_ok_iff.mp h
  have hpresent : t.isPresent path = true := by rw [isPresent, hlocate]
  rw [loaded, if_pos hpresent, h, lift, Except.bind]

def saved (s : Settings) (t : FileTree) (path : String) : Except Failure Unit × FileTree :=
  match prepared t path with
  | .error fault => (.error (.inputOutput fault), t)
  | .ok t₁ =>
      match render s with
      | .error f => (.error f, t₁)
      | .ok text => (lift (t₁.changed (t₁.write path text)).1, (t₁.changed (t₁.write path text)).2)

theorem save_apply (s : Settings) (t : FileTree) (path : String) :
    (save s path : StateM FileTree _) t = saved s t (expandTilde t.homePath path) := by
  unfold save saved
  simp only [bind_apply, home_apply, prepare_apply]
  cases prepared t (expandTilde t.homePath path) with
  | error fault => rfl
  | ok t₁ =>
    simp only [changed, lift]
    cases render s with
    | error f => rfl
    | ok text =>
      simp only [bind_apply, write_apply]
      rfl

/-- Making the directory of a path does no harm. -/
theorem prepared_spec {t t' : FileTree} {path : String} (ht : t.Rooted)
    (h : prepared t path = .ok t') : t.Extends t' ∧ t'.Rooted := by
  unfold prepared at h
  split at h
  · exact createDirectories_spec ht h
  · cases h
    exact ⟨.refl t, ht⟩

section
variable {s : Settings} {t t₁ t₂ : FileTree} {path text : String} {fault : FileFault} {f : Failure}

theorem saved_of_unprepared (h : prepared t path = .error fault) :
    saved s t path = (.error (.inputOutput fault), t) := by
  rw [saved, h]

theorem saved_of_unrendered (h : prepared t path = .ok t₁) (hrender : render s = .error f) :
    saved s t path = (.error f, t₁) := by
  simp only [saved, h, hrender]

theorem saved_of_unwritten (h : prepared t path = .ok t₁) (hrender : render s = .ok text)
    (hwrite : t₁.write path text = .error fault) :
    saved s t path = (.error (.inputOutput fault), t₁) := by
  simp only [saved, h, hrender, hwrite, changed, lift]

theorem saved_of_written (h : prepared t path = .ok t₁) (hrender : render s = .ok text)
    (hwrite : t₁.write path text = .ok t₂) : saved s t path = (.ok (), t₂) := by
  simp only [saved, h, hrender, hwrite, changed, lift]

end

end SettingsFile
end Choreography
