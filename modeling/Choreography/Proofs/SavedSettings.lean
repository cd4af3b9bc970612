import Choreography.Proofs.SettingsFiles
import Choreography.Proofs.SettingsText

/-! # Saving and loading settings

Settings that are saved are loaded again as they were, whatever they hold, as long as signed numbers
of sixty-four bits hold their unsigned ones; other settings are refused before any file is touched.
What a file leaves out is loaded with its default. -/
namespace Choreography.SettingsFile
open FileTree
variable {s : Settings} {t : FileTree} {path text : String}

def HasDirectory (t : FileTree) (path : String) : Prop := ∃ t', prepared t path = .ok t'

/-- Whether a file can be made or replaced under a path once its directory is there. -/
def IsWritable (t : FileTree) (path : String) : Prop :=
  ∃ t' place, prepared t path = .ok t' ∧ t'.target path = .ok place ∧
    t'.node? place ≠ some .directory

/-- A file can be written under a path of names exactly if no file stands in its way, of which what is
missing is made, and if there is no directory in its place. -/
theorem isWritable_intercalate_iff (ht : t.Rooted) {names : List String} {name : String}
    (hnames : ∀ n ∈ names ++ [name], FilePath.IsName n)
    (hfault : FilePath.fault? ("/".intercalate (names ++ [name])) = none) :
    IsWritable t ("/".intercalate (names ++ [name])) ↔
      (∀ above, above <+: t.current ++ names → t.fileAt? above = none) ∧
        t.node? (t.current ++ names ++ [name]) ≠ some .directory := by
  have hway : ∀ n ∈ names, FilePath.IsName n := fun n hn => hnames n (List.mem_append_left _ hn)
  have hprepared : ∀ t', prepared t ("/".intercalate (names ++ [name])) = .ok t' ↔
      ∃ place, names.foldlM enterNew (t, t.current) = .ok (t', place) ∧
        t'.fileAt? place = none := by
    intro t'
    rw [prepared, FilePath.parent?_intercalate hnames]
    exact createDirectories_intercalate hway fun hne => FilePath.fault?_intercalate hway hne hfault
  -- Where no file stands in the way, the target is what it would be if the way were there.
  have hmade : (∀ above, above <+: t.current ++ names → t.fileAt? above = none) →
      ∃ t', prepared t ("/".intercalate (names ++ [name])) = .ok t' ∧
        t'.target ("/".intercalate (names ++ [name])) = .ok (t.current ++ names ++ [name]) ∧
        t'.node? (t.current ++ names ++ [name]) = t.node? (t.current ++ names ++ [name]) := by
    intro hfree
    obtain ⟨t', hwalk, hextends, hrooted, hend, hothers⟩ := foldlM_enterNew_of_names ht
      (node?_current t) hway fun above _ habove => hfree above habove
    have hcurrent : t'.current = t.current := congrArg Whereabouts.current hextends.whereabouts
    have htarget := target_intercalate hrooted hnames hfault (by rwa [hcurrent])
    rw [hcurrent] at htarget
    refine ⟨t', (hprepared t').mpr ⟨_, hwalk, by rw [fileAt?, hend]⟩, htarget, hothers _ ?_⟩
    exact fun hlonger => by simpa using hlonger.length_le
  constructor
  · rintro ⟨t', place, hready, htarget, hnode⟩
    obtain ⟨last, hwalk, hlast⟩ := (hprepared t').mp hready
    have hfree : ∀ above, above <+: t.current ++ names → t.fileAt? above = none := by
      intro above habove
      rcases List.prefix_or_prefix_of_prefix habove (List.prefix_append t.current names) with
        hinner | houter
      · rw [fileAt?, ht.directory_of_prefix (node?_current t) hinner]
      · exact fileAt?_of_foldlM_enterNew ht (node?_current t) hway hwalk hlast above houter habove
    obtain ⟨t'', hready', htarget', hsame⟩ := hmade hfree
    cases hready.symm.trans hready'
    cases htarget.symm.trans htarget'
    exact ⟨hfree, hsame ▸ hnode⟩
  · rintro ⟨hfree, hnode⟩
    obtain ⟨t', hready, htarget, hsame⟩ := hmade hfree
    exact ⟨t', _, hready, htarget, hsame ▸ hnode⟩

/-- A chain of directories that are missing. -/
example : IsWritable ⟨["home"], []⟩ "settings/deep/odd.toml" := by
  have hnames : ∀ n ∈ ["settings", "deep"] ++ ["odd.toml"], FilePath.IsName n := by decide
  refine (isWritable_intercalate_iff (rooted_of_nodes (by decide)) hnames (by decide)).mpr
    ⟨fun above _ => Option.eq_none_iff_forall_ne_some.mpr fun text htext => ?_, by decide⟩
  rw [fileAt?_eq_some_iff, node?] at htext
  split at htext <;> cases htext

/-- What saving settings to a path of a tree and loading them again comes to. -/
structure RoundTrips (s : Settings) (t : FileTree) (path : String)
    (after : Except Failure Unit × FileTree) : Prop where
  saved : s.Fits → IsWritable t (expandTilde t.homePath path) → after.1 = .ok ()
  loaded : after.1 = .ok () →
    (load path : StateM FileTree (Except Failure Settings)) after.2 = (.ok s, after.2)
  /-- Only the file that is written changes. -/
  others : after.1 = .ok () →
    ∃ place, after.2.locate (expandTilde t.homePath path) = .ok place ∧
      ∀ other ≠ place, after.2.fileAt? other = t.fileAt? other
  refused : ¬ s.Fits → after.1 ≠ .ok () ∧
    (HasDirectory t (expandTilde t.homePath path) → after.1 = .error .configuration)
  kept : after.1 ≠ .ok () → ∀ place, after.2.fileAt? place = t.fileAt? place

theorem roundTrips_of_fits (hs : isSigned 64 s.engine.loopUnrollLimit = true) (hfits : s.Fits)
    (ht : t.Rooted) (path : String) :
    RoundTrips s t path ((save s path : StateM FileTree (Except Failure Unit)) t) := by
  obtain ⟨text, hrender, hparse⟩ := exists_render hs hfits
  rw [save_apply]
  have hrefused {r : Except Failure Unit} : ¬ s.Fits → r ≠ .ok () ∧
      (HasDirectory t (expandTilde t.homePath path) → r = .error .configuration) :=
    fun h => absurd hfits h
  cases hprepared : prepared t (expandTilde t.homePath path) with
  | error fault =>
    rw [saved_of_unprepared hprepared]
    refine ⟨fun _ ⟨t', _, h, _⟩ => ?_, nofun, nofun, hrefused, fun _ _ => rfl⟩
    rw [hprepared] at h
    cases h
  | ok t₁ =>
    obtain ⟨hextends, hrooted⟩ := prepared_spec ht hprepared
    cases hwrite : t₁.write (expandTilde t.homePath path) text with
    | error fault =>
      rw [saved_of_unwritten hprepared hrender hwrite]
      refine ⟨fun _ ⟨t', place, h, htarget, hnode⟩ => ?_, nofun, nofun, hrefused,
        fun _ => hextends.fileAt?⟩
      obtain rfl : t₁ = t' := Except.ok.inj (hprepared.symm.trans h)
      rw [write_eq_ok_iff.mpr ⟨place, htarget, hnode, rfl⟩] at hwrite
      cases hwrite
    | ok t₂ =>
      obtain ⟨hread, place, -, -, hlocate, hfiles⟩ := write_spec hrooted hwrite
      have hhome : t₂.home = t.home := by
        obtain ⟨_, -, -, rfl⟩ := write_eq_ok_iff.mp hwrite
        exact congrArg Whereabouts.home hextends.whereabouts
      rw [saved_of_written hprepared hrender hwrite]
      refine ⟨fun _ _ => rfl, fun _ => ?_, fun _ => ⟨place, hlocate, fun other hother => ?_⟩,
        hrefused, fun h => absurd rfl h⟩
      · have hpath : t₂.homePath = t.homePath := by rw [homePath, homePath, hhome]
        rw [load_apply, hpath, loaded_of_read hread, hparse]
      · rw [hfiles, if_neg hother, hextends.fileAt?]

theorem roundTrips_of_not_fits (hfits : ¬ s.Fits) (ht : t.Rooted) (path : String) :
    RoundTrips s t path ((save s path : StateM FileTree (Except Failure Unit)) t) := by
  rw [save_apply]
  cases hprepared : prepared t (expandTilde t.homePath path) with
  | error fault =>
    rw [saved_of_unprepared hprepared]
    refine ⟨fun h => absurd h hfits, nofun, nofun, fun _ => ⟨nofun, fun ⟨t', h⟩ => ?_⟩,
      fun _ _ => rfl⟩
    rw [hprepared] at h
    cases h
  | ok t₁ =>
    obtain ⟨hextends, -⟩ := prepared_spec ht hprepared
    rw [saved_of_unrendered hprepared (render_of_not_fits hfits)]
    exact ⟨fun h => absurd h hfits, nofun, nofun, fun _ => ⟨nofun, fun _ => rfl⟩,
      fun _ => hextends.fileAt?⟩

/-- Saved settings are loaded again, or they are refused and every file keeps its text; and a file
that gives some fields of some sections is loaded with the defaults for the rest, whatever is
given. -/
theorem save_load (hs : isSigned 64 s.engine.loopUnrollLimit = true) (ht : t.Rooted)
    (path : String) :
    RoundTrips s t path ((save s path : StateM FileTree (Except Failure Unit)) t) ∧
    (∀ (p : PartialSettings) (text : String) (fields : List (String × Document)),
      t.read (expandTilde t.homePath path) = .ok text →
      Toml.parse? text = some (.object fields) → p.In fields →
      (load path : StateM FileTree (Except Failure Settings)) t = (.ok p.settings, t)) ∧
    ∀ p : PartialSettings, p.Fits → ∃ text fields,
      TomlText.render? (Toml.table p.sections) = some text ∧
        Toml.parse? text = some (.object fields) ∧ p.In fields := by
  refine ⟨?_, fun p text fields hread hparse hin => ?_, fun p => PartialSettings.exists_text⟩
  · by_cases hfits : s.Fits
    · exact roundTrips_of_fits hs hfits ht path
    · exact roundTrips_of_not_fits hfits ht path
  · rw [load_apply, loaded_of_read hread, parse_of_gives hparse hin]

def oddSettings : Settings :=
  { general := { logLevel := "\"''\\\x01\n\r" }, engine := { loopUnrollLimit := -3 } }

def bareHome : FileTree := ⟨["home"], []⟩

theorem save_load_oddSettings :
    (save oddSettings "odd.toml" : StateM FileTree (Except Failure Unit)) bareHome =
      (.ok (), ((save oddSettings "odd.toml" : StateM FileTree _) bareHome).2) ∧
    (load "odd.toml" : StateM FileTree (Except Failure Settings))
      ((save oddSettings "odd.toml" : StateM FileTree _) bareHome).2 =
        (.ok oddSettings, ((save oddSettings "odd.toml" : StateM FileTree _) bareHome).2) := by
  obtain ⟨hround, -, -⟩ := save_load (s := oddSettings) (t := bareHome) (by decide)
    (rooted_of_nodes (by decide)) "odd.toml"
  have hpath : expandTilde bareHome.homePath "odd.toml" = "odd.toml" := by
    rw [expandTilde, if_neg (by decide), if_neg (by simp [String.startsWith_string_iff])]
  have hwritable : IsWritable bareHome "odd.toml" := by
    have hroot : "odd.toml".startsWith "/" = false := by
      simp [String.startsWith_string_eq_false_iff]
    have hparts : FilePath.parts "odd.toml" = ["odd.toml"] := by decide
    have hfault : FilePath.fault? "odd.toml" = none := by decide
    refine ⟨bareHome, ["home", "odd.toml"], ?_, ?_, by decide⟩
    · simp [prepared, FilePath.parent?, hparts, hroot, createDirectories]
    · simp only [target, hfault, hparts, start, hroot]
      rfl
  have hsaved := hround.saved (by decide) (by rw [hpath]; exact hwritable)
  exact ⟨Prod.ext hsaved rfl, hround.loaded hsaved⟩

end Choreography.SettingsFile
