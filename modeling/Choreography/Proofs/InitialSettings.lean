import Choreography.CommandLine
import Choreography.Proofs.SettingsFiles
import Choreography.Proofs.SettingsText

/-! # Writing the default settings

Default settings are written to the path that is given, with its tilde expanded and its directory
made, but only the path as it is given is looked up before. A file is spared unless this difference
hides it, which takes a tilde, or two points after a directory that is missing. -/
namespace Choreography

namespace FilePath

/-- Joining paths brings no new components. -/
theorem mem_parts_join {directory path part : String} (h : part ∈ parts (join directory path)) :
    part ∈ parts directory ∨ part ∈ parts path := by
  unfold join at h
  split at h
  · exact .inr h
  · split at h
    · rename_i hslash
      obtain ⟨outer, rfl⟩ : ∃ outer, directory = outer ++ "/" := by
        have hsuffix : "/".toList <:+ directory.toList := by
          rw [← String.endsWith_toSlice] at hslash
          simpa only [String.copy_toSlice] using String.Slice.endsWith_string_iff.mp hslash
        obtain ⟨outer, houter⟩ := hsuffix
        refine ⟨String.ofList outer, String.toList_injective ?_⟩
        rw [String.toList_append, String.toList_ofList, houter]
      rw [parts_slash, List.mem_append] at h
      have hempty := parts_slash outer ""
      rw [String.append_empty] at hempty
      rw [hempty, List.mem_append]
      exact h.imp_left .inl
    · rw [parts_slash, List.mem_append] at h
      exact h

/-- The components of names that are joined. -/
theorem mem_parts_intercalate {names : List String} (h : ∀ name ∈ names, '/' ∉ name.toList)
    {part : String} (hpart : part ∈ parts ("/".intercalate names)) : part = "" ∨ part ∈ names := by
  cases names with
  | nil => exact .inl (List.mem_singleton.mp hpart)
  | cons name rest =>
    rw [parts_intercalate (List.cons_ne_nil name rest) h] at hpart
    exact .inr hpart

theorem prefix_join (directory path : String) (h : path.toList.head? ≠ some '/') :
    directory.toList <+: (join directory path).toList := by
  have hrelative : path.startsWith "/" = false := by
    rw [String.startsWith_string_eq_false_iff]
    rintro ⟨rest, hrest⟩
    exact h (by rw [← hrest]; rfl)
  unfold join
  rw [if_neg (by simp [hrelative])]
  split
  · rw [String.toList_append]
    exact List.prefix_append _ _
  · rw [String.toList_append, String.toList_append, List.append_assoc]
    exact List.prefix_append _ _

/-- A path that means the same before and after its directory is made. -/
structure IsPlain (path : String) : Prop where
  noTilde : path ≠ "~" ∧ path.startsWith "~/" = false
  noParent : ".." ∉ parts path

end FilePath

namespace FileTree
variable {t t' : FileTree} {place : List String} {path : String}

/-- Everything is in a directory, and the names on the way to the home directory are names. -/
structure WellFormed (t : FileTree) : Prop where
  rooted : t.Rooted
  home : ∀ name ∈ t.home, name ≠ ".." ∧ '/' ∉ name.toList

/-- A way that does not go up is there if its end is. -/
theorem foldlM_enter_of_directory (ht : t.Rooted) (ht' : t'.Rooted)
    {parts last : List String} (hup : ".." ∉ parts)
    (hwalk : parts.foldlM t'.enter place = .ok last) (hlast : t.node? last = some .directory) :
    parts.foldlM t.enter place = .ok last ∧ t.node? place = some .directory := by
  induction parts generalizing place with
  | nil =>
    cases hwalk
    exact ⟨rfl, hlast⟩
  | cons part rest ih =>
    rw [List.foldlM_cons, Except.bind_eq_ok_iff] at hwalk
    obtain ⟨next, hstep, hrest⟩ := hwalk
    obtain ⟨hpart, hup⟩ : part ≠ ".." ∧ ".." ∉ rest := by
      simpa [eq_comm] using hup
    obtain ⟨hfold, hnext⟩ := ih hup hrest
    obtain ⟨-, hfrom, -⟩ := (enter_eq_ok_iff ht').mp hstep
    have hplace : t.node? place = some .directory := by
      simp only [stepFrom, hpart, if_false] at hfrom
      split at hfrom
      · rwa [hfrom]
      · exact ht place part (by rw [hfrom, hnext]; rfl)
    refine ⟨?_, hplace⟩
    rw [List.foldlM_cons, Except.bind_eq_ok_iff]
    exact ⟨next, (enter_eq_ok_iff ht).mpr ⟨hplace, hfrom, by rw [hnext]; rfl⟩, hfold⟩

/-- A path that does not go up leads to a file before its directory is made if it does so after. -/
theorem Extends.isPresent (h : t.Extends t') (ht : t.Rooted) (ht' : t'.Rooted)
    (hup : ".." ∉ FilePath.parts path) (htarget : t'.target path = .ok place)
    (hsome : (t.node? place).isSome = true) : t.isPresent path = true := by
  obtain ⟨hfault, above, name, rfl, hlast, hwalk, hstep, -⟩ := target_eq_ok htarget
  have habove := ht above name hsome
  rw [h.start] at hwalk
  obtain ⟨hwalk, -⟩ := foldlM_enter_of_directory ht ht'
    (fun hmem => hup (List.dropLast_subset _ hmem)) hwalk habove
  rw [FileTree.isPresent, locate_of_walk ht hfault hlast hwalk habove hstep hsome]

end FileTree

namespace CommandLine
open FileTree SettingsFile

def settingsPath (t : FileTree) (config : Option String) : String :=
  config.getD (defaultPath t.homePath)

def initialized (t : FileTree) (path : String) (force : Bool) : Result × FileTree :=
  if !force && t.isPresent path then
    (failed (path ++ " already exists (use --force to overwrite)"), t)
  else
    match saved {} t (expandTilde t.homePath path) with
    | (.ok (), t') => (success ("Wrote default configuration to " ++ path ++ "\n"), t')
    | (.error _, t') => (failed ("Failed to write " ++ path), t')

theorem writeDefaults_apply (t : FileTree) (config : Option String) (force : Bool) :
    (writeDefaults config force : StateM FileTree _) t =
      initialized t (settingsPath t config) force := by
  unfold writeDefaults initialized settingsPath
  simp only [bind_apply, home_apply]
  rw [branch_apply, isPresent_apply]
  split
  · rfl
  · rw [bind_apply, save_apply]
    generalize saved {} t _ = out
    obtain ⟨r, t'⟩ := out
    cases r <;> rfl

/-- What is done after the settings have been loaded does not depend on them. -/
theorem execute_init_apply {args : List String} {config : Option String} {force : Bool}
    (h : parse? args = some (.execute config (.init force))) (t : FileTree) :
    (execute args : StateM FileTree _) t =
      match loaded t (expandTilde t.homePath (settingsPath t config)) with
      | .ok _ => initialized t (settingsPath t config) force
      | .error f => (failed f.message, t) := by
  unfold execute
  rw [h]
  simp only [bind_apply, home_apply, load_apply]
  change (match loaded t (expandTilde t.homePath (settingsPath t config)) with
    | .ok settings => carryOut settings config (.init force)
    | .error f => pure (failed f.message) : StateM FileTree _) t = _
  cases loaded t (expandTilde t.homePath (settingsPath t config)) with
  | ok settings => exact writeDefaults_apply t config force
  | error f => rfl

variable {t : FileTree} {path : String} {config : Option String}

/-- No file that was there has changed. If the default settings are reported to be written, they are
in a file that was not there. -/
structure Spares (t : FileTree) (path : String) (after : Result × FileTree) : Prop where
  kept : ∀ place text, t.fileAt? place = some text → after.2.fileAt? place = some text
  fresh : after.1.exit = 0 →
    after.1.stdout = "Wrote default configuration to " ++ path ++ "\n" ∧
      ∃ place text, after.2.locate (expandTilde t.homePath path) = .ok place ∧
        t.node? place = none ∧ after.2.fileAt? place = some text ∧
        SettingsFile.parse text = .ok {}

/-- The path as it is given leads to nothing, and settings can be loaded from where it leads with
its tilde expanded; and there it leads to a file, at least when its directory is made. -/
structure Overlooks (t : FileTree) (path : String) : Prop where
  absent : t.isPresent path = false
  loads : ∃ settings, loaded t (expandTilde t.homePath path) = .ok settings
  present : ∃ t' place text, prepared t (expandTilde t.homePath path) = .ok t' ∧
    t'.target (expandTilde t.homePath path) = .ok place ∧ t.fileAt? place = some text

/-- What cannot be done changes no file. -/
theorem Spares.failed {t' : FileTree} (h : t.Extends t') (reason : String) :
    Spares t path (failed reason, t') :=
  ⟨fun place _ hfile => (h.fileAt? place).trans hfile, fun hexit => by cases hexit⟩

/-- Nothing is lost where nothing is overlooked. -/
theorem spares_initialized (ht : t.Rooted)
    (hloads : ∃ settings, loaded t (expandTilde t.homePath path) = .ok settings)
    (hnot : ¬ Overlooks t path) : Spares t path (initialized t path false) := by
  obtain ⟨text, hrender, hparse⟩ := exists_render (s := {}) (by decide) (by decide)
  unfold initialized
  split
  · exact .failed (.refl t) _
  · rename_i habsent
    have habsent : t.isPresent path = false := by simpa using habsent
    cases hprepared : prepared t (expandTilde t.homePath path) with
    | error fault =>
      rw [saved_of_unprepared hprepared]
      exact .failed (.refl t) _
    | ok t₁ =>
      obtain ⟨hextends, hrooted⟩ := prepared_spec ht hprepared
      cases hwrite : t₁.write (expandTilde t.homePath path) text with
      | error fault =>
        rw [saved_of_unwritten hprepared hrender hwrite]
        exact .failed hextends _
      | ok t₂ =>
        rw [saved_of_written hprepared hrender hwrite]
        obtain ⟨-, place, htarget, hdirectory, hlocate, hfiles⟩ := write_spec hrooted hwrite
        have hnofile : ∀ old, t.fileAt? place ≠ some old := fun old hold =>
          hnot ⟨habsent, hloads, t₁, place, old, hprepared, htarget, hold⟩
        have hnone : t.node? place = none := by
          rcases hextends.node place with heq | ⟨hnone, -⟩
          · rw [heq] at hdirectory
            cases hnode : t.node? place with
            | none => rfl
            | some n =>
              cases n with
              | directory => exact absurd hnode hdirectory
              | file old => exact absurd (fileAt?_eq_some_iff.mpr hnode) (hnofile old)
          · exact hnone
        refine ⟨fun other old hold => ?_, fun _ => ⟨rfl, place, text, hlocate, hnone, ?_, hparse⟩⟩
        · rw [hfiles, if_neg, hextends.fileAt?, hold]
          rintro rfl
          exact hnofile old hold
        · rw [hfiles, if_pos rfl]

/-- What is overlooked is lost. -/
theorem not_spares_initialized (ht : t.Rooted) (h : Overlooks t path) :
    ¬ Spares t path (initialized t path false) := by
  obtain ⟨text, hrender, -⟩ := exists_render (s := {}) (by decide) (by decide)
  obtain ⟨habsent, -, t₁, place, old, hprepared, htarget, hold⟩ := h
  obtain ⟨hextends, hrooted⟩ := prepared_spec ht hprepared
  have hfile : t₁.node? place = some (.file old) := by
    rw [← fileAt?_eq_some_iff, hextends.fileAt?, hold]
  have hdirectory : t₁.node? place ≠ some .directory := by simp [hfile]
  have hwrite : t₁.write (expandTilde t.homePath path) text =
      .ok (t₁.assign place (.file text)) :=
    write_eq_ok_iff.mpr ⟨place, htarget, hdirectory, rfl⟩
  have hafter : initialized t path false =
      (success ("Wrote default configuration to " ++ path ++ "\n"),
        t₁.assign place (.file text)) := by
    unfold initialized
    rw [habsent, saved_of_written hprepared hrender hwrite]
    rfl
  intro hspares
  rw [hafter] at hspares
  obtain ⟨-, place', -, hlocate, hnone, -⟩ := hspares.fresh rfl
  cases hlocate.symm.trans (locate_assign hrooted htarget hdirectory)
  rw [fileAt?_eq_some_iff, hnone] at hold
  cases hold

theorem not_overlooks_of_isPlain (ht : t.Rooted) (h : FilePath.IsPlain path) :
    ¬ Overlooks t path := by
  rintro ⟨habsent, -, t₁, place, old, hprepared, htarget, hold⟩
  have hexpand : expandTilde t.homePath path = path := by
    unfold expandTilde
    rw [if_neg h.noTilde.1, if_neg (by simp [h.noTilde.2])]
  rw [hexpand] at hprepared htarget
  obtain ⟨hextends, hrooted⟩ := prepared_spec ht hprepared
  have hpresent := hextends.isPresent ht hrooted h.noParent htarget
    (by rw [fileAt?_eq_some_iff.mp hold]; rfl)
  rw [habsent] at hpresent
  cases hpresent

theorem isPlain_defaultPath (ht : t.WellFormed) : FilePath.IsPlain (defaultPath t.homePath) := by
  have hprefix : t.homePath.toList <+: (defaultPath t.homePath).toList :=
    (FilePath.prefix_join _ ".config" (by decide)).trans
      ((FilePath.prefix_join _ "marquee" (by decide)).trans
        (FilePath.prefix_join _ "config.toml" (by decide)))
  obtain ⟨rest, hrest⟩ := hprefix
  have hroot : (defaultPath t.homePath).toList.head? = some '/' := by
    rw [← hrest, homePath, String.toList_append]
    rfl
  refine ⟨⟨fun hhome => ?_, ?_⟩, fun hup => ?_⟩
  · rw [hhome] at hroot
    cases hroot
  · rw [String.startsWith_string_eq_false_iff]
    rintro ⟨rest, hrest⟩
    rw [← hrest] at hroot
    cases hroot
  · have hname : ".." ∈ FilePath.parts t.homePath := by
      unfold defaultPath at hup
      have hdirectory := (FilePath.mem_parts_join hup).resolve_right (by decide)
      have hconfig := (FilePath.mem_parts_join hdirectory).resolve_right (by decide)
      exact (FilePath.mem_parts_join hconfig).resolve_right (by decide)
    have hhome : ".." ∈ FilePath.parts ("/".intercalate t.home) := by
      have hparts := FilePath.parts_slash "" ("/".intercalate t.home)
      rw [String.empty_append] at hparts
      rw [homePath, hparts, List.mem_append] at hname
      exact hname.resolve_left (by decide)
    rcases FilePath.mem_parts_intercalate (fun name hname => (ht.home name hname).2) hhome with
      hempty | hmem
    · exact absurd hempty (by decide)
    · exact (ht.home ".." hmem).1 rfl

/-- Default settings that are written without force spare the files that are there if and only if no
file is overlooked: none is where the path is plain, or where none is given. -/
theorem init_spares_iff {args : List String} (ht : t.WellFormed)
    (h : parse? args = some (.execute config (.init false))) :
    (Spares t (settingsPath t config) ((execute args : StateM FileTree Result) t) ↔
      ¬ Overlooks t (settingsPath t config)) ∧
    ((∀ path ∈ config, FilePath.IsPlain path) →
      Spares t (settingsPath t config) ((execute args : StateM FileTree Result) t)) := by
  have hiff : Spares t (settingsPath t config) ((execute args : StateM FileTree Result) t) ↔
      ¬ Overlooks t (settingsPath t config) := by
    rw [execute_init_apply h]
    cases hloaded : loaded t (expandTilde t.homePath (settingsPath t config)) with
    | error f =>
      refine iff_of_true (.failed (.refl t) _) fun hoverlooks => ?_
      obtain ⟨settings, hsettings⟩ := hoverlooks.loads
      rw [hloaded] at hsettings
      cases hsettings
    | ok settings =>
      exact ⟨fun hspares hoverlooks => not_spares_initialized ht.rooted hoverlooks hspares,
        spares_initialized ht.rooted ⟨settings, hloaded⟩⟩
  refine ⟨hiff, fun hplain => hiff.mpr (not_overlooks_of_isPlain ht.rooted ?_)⟩
  cases config with
  | none => exact isPlain_defaultPath ht
  | some path => exact hplain path rfl

/-- The arguments that write default settings to a path. -/
theorem parse?_init (hvalue : isValue path = true) (hne : path ≠ "") :
    parse? ["init", "-c", path] = some (.execute (some path) (.init false)) := by
  have hcommand : word "init" = .plain "init" := by simp [word]
  have hoption : word "-c" = .option .config none := rfl
  have hverb : Verb.ofName? "init" = some .init := by decide
  have hset : Options.none.set? .config path = some { Options.none with config := some path } := by
    simp [Options.set?, Options.none, hne]
  rw [parse?, arguments?, hcommand]
  simp only [hverb]
  rw [if_neg (by decide), arguments?, hoption]
  simp only [hvalue, Flag.isKnown, Flag.takesValue]
  simp [hset, arguments?, request?]
  rfl

def keptTree : FileTree :=
  ⟨["home"], [(["home", "cfg.toml"], .file "[engine]\nmax_steps = 7\n")]⟩

theorem wellFormed_keptTree : keptTree.WellFormed :=
  ⟨rooted_of_nodes (by decide), by decide⟩

/-- Beside a file that is there, settings are written to a new directory. -/
theorem init_spares_kept :
    Spares keptTree "settings/marquee.toml"
      ((execute ["init", "-c", "settings/marquee.toml"] : StateM FileTree Result) keptTree) := by
  have hvalue : isValue "settings/marquee.toml" = true := by
    simp [isValue, String.startsWith_string_eq_false_iff]
  have hplain : FilePath.IsPlain "settings/marquee.toml" :=
    ⟨⟨by decide, by simp [String.startsWith_string_eq_false_iff]⟩, by decide⟩
  exact (init_spares_iff wellFormed_keptTree (parse?_init hvalue (by decide))).2 fun path hpath =>
    Option.some.inj hpath ▸ hplain

theorem expandTilde_kept : expandTilde keptTree.homePath "~/cfg.toml" = "/home/cfg.toml" := by
  have hhome : keptTree.homePath = "/home" := by decide
  have hstarts : "~/cfg.toml".startsWith "~/" = true := by simp [String.startsWith_string_iff]
  have hdrop : ("~/cfg.toml".drop 2).toString = "cfg.toml" :=
    String.toList_injective (by simp [String.toList_copy_drop])
  have hends : "/home".endsWith "/" = false := by
    rw [← String.endsWith_toSlice, String.Slice.endsWith_string_eq_false_iff]
    decide
  rw [hhome, expandTilde, if_neg (by decide), if_pos hstarts, hdrop, FilePath.join,
    if_neg (by simp [String.startsWith_string_iff]), if_neg (by simp [hends])]
  rfl

theorem start_kept : keptTree.start "/home/cfg.toml" = [] :=
  if_pos (by simp [String.startsWith_string_iff])

theorem parts_kept : FilePath.parts "/home/cfg.toml" = ["", "home", "cfg.toml"] := by decide

theorem fault?_kept : FilePath.fault? "/home/cfg.toml" = none := by decide

theorem target_kept : keptTree.target "/home/cfg.toml" = .ok ["home", "cfg.toml"] := by
  rw [target, fault?_kept, parts_kept, start_kept]
  rfl

theorem prepared_kept : prepared keptTree "/home/cfg.toml" = .ok keptTree := by
  have hparent : FilePath.parent? "/home/cfg.toml" = some "/home" := by
    have hroot : "/home/cfg.toml".startsWith "/" = true := by simp [String.startsWith_string_iff]
    simp [FilePath.parent?, parts_kept, hroot]
  have hfault : FilePath.fault? "/home" = none := by decide
  have hstart : keptTree.start "/home" = [] := if_pos (by simp [String.startsWith_string_iff])
  have hhome : FilePath.parts "/home" = ["", "home"] := by decide
  unfold prepared
  rw [hparent]
  simp only [createDirectories, hfault, hstart, hhome]
  rfl

theorem loads_kept : ∃ settings, loaded keptTree "/home/cfg.toml" = .ok settings := by
  have hlocate : keptTree.locate "/home/cfg.toml" = .ok ["home", "cfg.toml"] := by
    rw [FileTree.locate, fault?_kept, parts_kept, start_kept]
    rfl
  have hread : keptTree.read "/home/cfg.toml" = .ok "[engine]\nmax_steps = 7\n" :=
    read_eq_ok_iff.mpr ⟨_, hlocate, rfl⟩
  obtain ⟨text, fields, hrender, hparse, hin⟩ := PartialSettings.exists_text
    (p := { engine := some { maxSteps := some 7 } })
    ⟨by rintro e ⟨⟩; exact ⟨by simp, by simp⟩, by simp⟩
  obtain rfl : text = "[engine]\nmax_steps = 7\n" :=
    Option.some.inj (hrender.symm.trans (by decide))
  exact ⟨_, (loaded_of_read hread).trans (parse_of_gives hparse hin)⟩

/-- A file that is named from the home directory is overlooked. -/
theorem overlooks_tilde : Overlooks keptTree "~/cfg.toml" where
  absent := by
    have hfault : FilePath.fault? "~/cfg.toml" = none := by decide
    have hstart : keptTree.start "~/cfg.toml" = ["home"] :=
      if_neg (by simp [String.startsWith_string_iff])
    have hparts : FilePath.parts "~/cfg.toml" = ["~", "cfg.toml"] := by decide
    rw [isPresent, FileTree.locate, hfault]
    simp only [hstart, hparts]
    rfl
  loads := expandTilde_kept ▸ loads_kept
  present := by
    rw [expandTilde_kept]
    exact ⟨_, _, _, prepared_kept, target_kept, rfl⟩

/-- A file that is named from the home directory is written over. -/
theorem not_spares_tilde :
    ¬ Spares keptTree "~/cfg.toml"
      ((execute ["init", "-c", "~/cfg.toml"] : StateM FileTree Result) keptTree) := by
  have hvalue : isValue "~/cfg.toml" = true := by
    simp [isValue, String.startsWith_string_eq_false_iff]
  obtain ⟨settings, hloads⟩ := overlooks_tilde.loads
  rw [execute_init_apply (parse?_init hvalue (by decide)), settingsPath, Option.getD_some, hloads]
  exact not_spares_initialized wellFormed_keptTree.rooted overlooks_tilde

end CommandLine
end Choreography
