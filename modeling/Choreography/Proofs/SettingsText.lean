import Choreography.Proofs.ExpressionForms
import Choreography.Proofs.TomlSections
import Choreography.SettingsFile
import Mathlib

/-! # Settings in TOML text

A text may give any of the fields of any of the sections. What it gives is what is read, with the
defaults for the rest; and whatever is to be given, as long as signed numbers of sixty-four bits
hold it, has a text that gives just that. -/
namespace Choreography

/-! ## What a table gives -/

namespace Document
variable {α β : Type} {name : String} {names : List String} {fields : List (String × Document)}

/-- A record is picked where no name repeats, and holds the known fields that are there. -/
theorem pick?_of_single (names : List String) (fields : List (String × Document))
    (h : ∀ name ∈ names, (fieldsNamed name fields).length ≤ 1) :
    ∃ r, pick? names fields = some r ∧ ∀ name,
      r.field? name = if name ∈ names then (fieldsNamed name fields).head? else none := by
  induction names with
  | nil => exact ⟨[], rfl, fun _ => rfl⟩
  | cons name names ih =>
    obtain ⟨hname, hnames⟩ := List.forall_mem_cons.mp h
    obtain ⟨r, hr, hfield⟩ := ih hnames
    cases hfields : fieldsNamed name fields with
    | nil =>
      refine ⟨r, by rw [pick?, hfields, hr], fun other => ?_⟩
      by_cases hother : other = name
      · rw [hfield, hother, hfields]
        simp
      · rw [hfield]
        simp [hother]
    | cons d more =>
      obtain rfl : more = [] := by
        rw [hfields, List.length_cons] at hname
        exact List.length_eq_zero_iff.mp (by omega)
      refine ⟨(name, d) :: r, by rw [pick?, hfields, hr]; rfl, fun other => ?_⟩
      by_cases hother : other = name
      · rw [hother, hfields]
        simp [Record.field?]
      · have hskip : Record.field? ((name, d) :: r) other = r.field? other := by
          simp [Record.field?, Ne.symm hother]
        rw [hskip, hfield]
        simp [hother]

/-- Whether a table gives the field of a name once with a value, or where there is no value not at
all. -/
def Gives (name : String) (fields : List (String × Document)) (Holds : Document → α → Prop) :
    Option α → Prop
  | some a => ∃ d, fieldsNamed name fields = [d] ∧ Holds d a
  | none => fieldsNamed name fields = []

variable {Holds : Document → α → Prop} {value : Option α}

theorem Gives.length_le (h : Gives name fields Holds value) :
    (fieldsNamed name fields).length ≤ 1 := by
  cases value with
  | none => exact h ▸ Nat.zero_le 1
  | some a =>
    obtain ⟨d, hd, -⟩ := h
    exact hd ▸ le_rfl

/-- What is given is read, and the default if nothing is. -/
theorem Gives.optional {r : Record} {f : α → β} (h : Gives name fields Holds value)
    (read : Document → Option β)
    (hfield : ∀ name, r.field? name =
      if name ∈ names then (fieldsNamed name fields).head? else none)
    (hname : name ∈ names) (hread : ∀ {d a}, Holds d a → read d = some (f a)) (default : β) :
    r.optional name read default = some ((value.map f).getD default) := by
  rw [Record.optional, hfield, if_pos hname]
  cases value with
  | none =>
    have hnone : fieldsNamed name fields = [] := h
    rw [hnone]
    rfl
  | some a =>
    obtain ⟨d, hd, hholds⟩ := h
    rw [hd]
    exact hread hholds

end Document

/-! ## Settings of which some are given -/

structure PartialGeneral where
  logLevel : Option String := none

structure PartialEngine where
  maxSteps : Option Nat := none
  maxPositions : Option Nat := none
  stabilizationRepeats : Option Nat := none
  stabilizationWindow : Option Nat := none
  loopUnrollLimit : Option Int := none
  maxFrameDepth : Option Nat := none
  smoothing : Option Bool := none

structure PartialCoordinator where
  iterationFactor : Option Nat := none

structure PartialSettings where
  general : Option PartialGeneral := none
  engine : Option PartialEngine := none
  coordinator : Option PartialCoordinator := none

section
variable (g : PartialGeneral) (e : PartialEngine) (c : PartialCoordinator) (p : PartialSettings)

def PartialGeneral.settings : GeneralSettings :=
  let default : GeneralSettings := {}
  ⟨g.logLevel.getD default.logLevel⟩

def PartialEngine.settings : EngineSettings :=
  let default : EngineSettings := {}
  { maxSteps := e.maxSteps.getD default.maxSteps
    maxPositions := e.maxPositions.getD default.maxPositions
    stabilizationRepeats := e.stabilizationRepeats.getD default.stabilizationRepeats
    stabilizationWindow := e.stabilizationWindow.getD default.stabilizationWindow
    loopUnrollLimit := e.loopUnrollLimit.getD default.loopUnrollLimit
    maxFrameDepth := e.maxFrameDepth.getD default.maxFrameDepth
    smoothing := e.smoothing.getD default.smoothing }

def PartialCoordinator.settings : CoordinatorSettings :=
  let default : CoordinatorSettings := {}
  ⟨c.iterationFactor.getD default.iterationFactor⟩

/-- The given settings, and the defaults of those that are not given. -/
def PartialSettings.settings : Settings where
  general := (p.general.map PartialGeneral.settings).getD {}
  engine := (p.engine.map PartialEngine.settings).getD {}
  coordinator := (p.coordinator.map PartialCoordinator.settings).getD {}

/-! ## Reading -/

def IsWhole (d : Document) (i : Int) : Prop := d = .integer i ∧ isSigned 64 i = true

open Document

structure PartialGeneral.In (fields : List (String × Document)) : Prop where
  logLevel : Gives "log_level" fields (fun d v => d = .string v) g.logLevel

structure PartialEngine.In (fields : List (String × Document)) : Prop where
  maxSteps : Gives "max_steps" fields (fun d (v : Nat) => IsWhole d v) e.maxSteps
  maxPositions : Gives "max_positions" fields (fun d (v : Nat) => IsWhole d v) e.maxPositions
  stabilizationRepeats :
    Gives "stabilization_repeats" fields (fun d (v : Nat) => IsWhole d v) e.stabilizationRepeats
  stabilizationWindow :
    Gives "stabilization_window" fields (fun d (v : Nat) => IsWhole d v) e.stabilizationWindow
  loopUnrollLimit : Gives "loop_unroll_limit" fields IsWhole e.loopUnrollLimit
  maxFrameDepth :
    Gives "max_frame_depth" fields (fun d (v : Nat) => IsWhole d v) e.maxFrameDepth
  smoothing : Gives "smoothing" fields (fun d v => d = .bool v) e.smoothing

structure PartialCoordinator.In (fields : List (String × Document)) : Prop where
  iterationFactor :
    Gives "iteration_factor" fields (fun d (v : Nat) => IsWhole d v) c.iterationFactor

/-- A table gives these sections, with these fields. -/
structure PartialSettings.In (fields : List (String × Document)) : Prop where
  general : Gives "general" fields
    (fun d (v : PartialGeneral) => ∃ inner, d = .object inner ∧ v.In inner) p.general
  engine : Gives "engine" fields
    (fun d (v : PartialEngine) => ∃ inner, d = .object inner ∧ v.In inner) p.engine
  coordinator : Gives "coordinator" fields
    (fun d (v : PartialCoordinator) => ∃ inner, d = .object inner ∧ v.In inner) p.coordinator

end

open Document

theorem IsWhole.signed? {d : Document} {i : Int} (h : IsWhole d i) : signed? 64 d = some i := by
  obtain ⟨rfl, hi⟩ := h
  simp [Document.signed?, whole?, hi]

theorem IsWhole.unsigned? {d : Document} {n : Nat} (h : IsWhole d n) : unsigned? d = some n := by
  obtain ⟨rfl, hn⟩ := h
  have hbound : (n : Int) < Nat.pow 2 64 :=
    lt_trans ((isSigned_iff 63 n).mp hn).2 (by decide)
  have hrange : (0 : Int) ≤ n ∧ (n : Int) < Nat.pow 2 64 := ⟨Int.natCast_nonneg n, hbound⟩
  simp only [Document.unsigned?, whole?]
  rw [if_pos hrange, Int.toNat_natCast]

theorem PartialGeneral.ofDocument {g : PartialGeneral} {fields : List (String × Document)}
    (h : g.In fields) : GeneralSettings.ofDocument true (.object fields) = some g.settings := by
  obtain ⟨r, hr, hfield⟩ := pick?_of_single ["log_level"] fields
    (by simpa using h.logLevel.length_le)
  have hlevel := h.logLevel.optional string? hfield (by decide)
    (fun hd => by rw [hd]; rfl)
  simp [GeneralSettings.ofDocument, record?, hr, hlevel, settings]

theorem PartialEngine.ofDocument {e : PartialEngine} {fields : List (String × Document)}
    (h : e.In fields) : EngineSettings.ofDocument true (.object fields) = some e.settings := by
  obtain ⟨r, hr, hfield⟩ := pick?_of_single ["max_steps", "max_positions",
      "stabilization_repeats", "stabilization_window", "loop_unroll_limit", "max_frame_depth",
      "smoothing"] fields
    (by simp [h.maxSteps.length_le, h.maxPositions.length_le, h.stabilizationRepeats.length_le,
      h.stabilizationWindow.length_le, h.loopUnrollLimit.length_le, h.maxFrameDepth.length_le,
      h.smoothing.length_le])
  have hsteps := h.maxSteps.optional unsigned? hfield (by decide) IsWhole.unsigned?
  have hpositions := h.maxPositions.optional unsigned? hfield (by decide) IsWhole.unsigned?
  have hrepeats := h.stabilizationRepeats.optional unsigned? hfield (by decide) IsWhole.unsigned?
  have hwindow := h.stabilizationWindow.optional unsigned? hfield (by decide) IsWhole.unsigned?
  have hlimit := h.loopUnrollLimit.optional (signed? 64) hfield (by decide) IsWhole.signed?
  have hdepth := h.maxFrameDepth.optional unsigned? hfield (by decide) IsWhole.unsigned?
  have hsmoothing := h.smoothing.optional bool? hfield (by decide)
    (fun hd => by rw [hd]; rfl)
  simp [EngineSettings.ofDocument, record?, hr, hsteps, hpositions, hrepeats, hwindow, hlimit,
    hdepth, hsmoothing, settings]

theorem PartialCoordinator.ofDocument {c : PartialCoordinator} {fields : List (String × Document)}
    (h : c.In fields) : CoordinatorSettings.ofDocument true (.object fields) = some c.settings := by
  obtain ⟨r, hr, hfield⟩ := pick?_of_single ["iteration_factor"] fields
    (by simpa using h.iterationFactor.length_le)
  have hfactor := h.iterationFactor.optional unsigned? hfield (by decide) IsWhole.unsigned?
  simp [CoordinatorSettings.ofDocument, record?, hr, hfactor, settings]

/-- The given settings are read, with the defaults for the rest. -/
theorem PartialSettings.ofDocument {p : PartialSettings} {fields : List (String × Document)}
    (h : p.In fields) : Settings.ofDocument true (.object fields) = some p.settings := by
  obtain ⟨r, hr, hfield⟩ := pick?_of_single ["general", "engine", "coordinator"] fields
    (by simp [h.general.length_le, h.engine.length_le, h.coordinator.length_le])
  have hgeneral := h.general.optional (f := PartialGeneral.settings)
    (GeneralSettings.ofDocument true) hfield (by decide)
    (fun ⟨_, hd, hin⟩ => hd ▸ PartialGeneral.ofDocument hin)
  have hengine := h.engine.optional (f := PartialEngine.settings)
    (EngineSettings.ofDocument true) hfield (by decide)
    (fun ⟨_, hd, hin⟩ => hd ▸ PartialEngine.ofDocument hin)
  have hcoordinator := h.coordinator.optional (f := PartialCoordinator.settings)
    (CoordinatorSettings.ofDocument true) hfield (by decide)
    (fun ⟨_, hd, hin⟩ => hd ▸ PartialCoordinator.ofDocument hin)
  simp [Settings.ofDocument, record?, hr, hgeneral, hengine, hcoordinator, settings]

/-! ## Writing -/

namespace Document
variable {α β γ : Type} {name other : String} {write : α → β} {value : Option α}

def given (name : String) (write : α → β) (value : Option α) : List (String × β) :=
  (value.map fun a => (name, write a)).toList

theorem mem_given {f : String × β} :
    f ∈ given name write value ↔ ∃ a ∈ value, f = (name, write a) := by
  cases value <;> simp [given]

theorem sublist_given (name : String) (write : α → β) (value : Option α) :
    ((given name write value).map Prod.fst).Sublist [name] := by
  cases value <;> simp [given]

@[simp] theorem map_given (g : β → γ) :
    (given name write value).map (fun f => (f.1, g f.2)) =
      given name (fun a => g (write a)) value := by
  cases value <;> rfl

theorem fieldsNamed_append (name : String) (first second : List (String × Document)) :
    fieldsNamed name (first ++ second) = fieldsNamed name first ++ fieldsNamed name second := by
  rw [fieldsNamed, List.filter_append, List.map_append]
  rfl

@[simp] theorem fieldsNamed_given_self {write : α → Document} :
    fieldsNamed name (given name write value) = (value.map write).toList := by
  cases value <;> simp [given, fieldsNamed]

@[simp] theorem fieldsNamed_given_of_ne {write : α → Document} (h : other ≠ name) :
    fieldsNamed name (given other write value) = [] := by
  cases value <;> simp [given, fieldsNamed, h]

/-- What is written is given. -/
theorem gives_given (write : α → Document) {fields : List (String × Document)}
    {Holds : Document → α → Prop} (h : fieldsNamed name fields = (value.map write).toList)
    (hholds : ∀ a ∈ value, Holds (write a) a) : Gives name fields Holds value := by
  cases value with
  | none => exact h
  | some a => exact ⟨write a, h, hholds a rfl⟩

end Document

def PartialGeneral.fields (g : PartialGeneral) : List (String × Document) :=
  given "log_level" Document.string g.logLevel

def PartialEngine.fields (e : PartialEngine) : List (String × Document) :=
  given "max_steps" Document.natural e.maxSteps ++
    (given "max_positions" Document.natural e.maxPositions ++
    (given "stabilization_repeats" Document.natural e.stabilizationRepeats ++
    (given "stabilization_window" Document.natural e.stabilizationWindow ++
    (given "loop_unroll_limit" Document.ofInt e.loopUnrollLimit ++
    (given "max_frame_depth" Document.natural e.maxFrameDepth ++
    given "smoothing" Document.bool e.smoothing)))))

def PartialCoordinator.fields (c : PartialCoordinator) : List (String × Document) :=
  given "iteration_factor" Document.natural c.iterationFactor

def PartialSettings.sections (p : PartialSettings) : List (String × List (String × Document)) :=
  given "general" PartialGeneral.fields p.general ++
    (given "engine" PartialEngine.fields p.engine ++
    given "coordinator" PartialCoordinator.fields p.coordinator)

/-- Whether all numbers that are given are signed ones of sixty-four bits. -/
structure PartialEngine.Fits (e : PartialEngine) : Prop where
  naturals : ∀ n : Nat, some n ∈ [e.maxSteps, e.maxPositions, e.stabilizationRepeats,
    e.stabilizationWindow, e.maxFrameDepth] → n < Nat.pow 2 63
  loopUnrollLimit : ∀ i ∈ e.loopUnrollLimit, isSigned 64 i = true

structure PartialSettings.Fits (p : PartialSettings) : Prop where
  engine : ∀ e ∈ p.engine, e.Fits
  coordinator : ∀ c ∈ p.coordinator, ∀ n ∈ c.iterationFactor, n < Nat.pow 2 63

theorem PartialEngine.Fits.natural {e : PartialEngine} (h : e.Fits) {value : Option Nat}
    (hvalue : value ∈ [e.maxSteps, e.maxPositions, e.stabilizationRepeats, e.stabilizationWindow,
      e.maxFrameDepth]) : ∀ n ∈ value, n < Nat.pow 2 63 :=
  fun n hn => h.naturals n (hn ▸ hvalue)

section
open Toml

theorem isWhole_natural {n : Nat} (h : n < Nat.pow 2 63) : IsWhole (asRead (.natural n)) n := by
  refine ⟨rfl, (isSigned_iff 63 n).mpr ⟨by omega, ?_⟩⟩
  have hbound : (n : Int) < (Nat.pow 2 63 : Nat) := Int.ofNat_lt.mpr h
  exact hbound

theorem isWhole_ofInt {i : Int} (h : isSigned 64 i = true) : IsWhole (asRead (.ofInt i)) i := by
  refine ⟨?_, h⟩
  unfold ofInt
  split
  · rename_i hnonneg
    rw [asRead, Int.toNat_of_nonneg hnonneg]
  · rfl

theorem PartialGeneral.in_fields (g : PartialGeneral) :
    g.In (g.fields.map fun f => (f.1, asRead f.2)) where
  logLevel := gives_given (fun v => asRead (.string v)) (by simp [fields]) fun _ _ => rfl

theorem PartialCoordinator.in_fields {c : PartialCoordinator}
    (h : ∀ n ∈ c.iterationFactor, n < Nat.pow 2 63) :
    c.In (c.fields.map fun f => (f.1, asRead f.2)) where
  iterationFactor := gives_given _ (by simp [fields]) fun n hn => isWhole_natural (h n hn)

theorem PartialEngine.in_fields {e : PartialEngine} (h : e.Fits) :
    e.In (e.fields.map fun f => (f.1, asRead f.2)) where
  maxSteps := gives_given _ (by simp [fields, fieldsNamed_append])
    fun n hn => isWhole_natural (h.natural (by simp) n hn)
  maxPositions := gives_given _ (by simp [fields, fieldsNamed_append])
    fun n hn => isWhole_natural (h.natural (by simp) n hn)
  stabilizationRepeats := gives_given _ (by simp [fields, fieldsNamed_append])
    fun n hn => isWhole_natural (h.natural (by simp) n hn)
  stabilizationWindow := gives_given _ (by simp [fields, fieldsNamed_append])
    fun n hn => isWhole_natural (h.natural (by simp) n hn)
  loopUnrollLimit := gives_given _ (by simp [fields, fieldsNamed_append])
    fun i hi => isWhole_ofInt (h.loopUnrollLimit i hi)
  maxFrameDepth := gives_given _ (by simp [fields, fieldsNamed_append])
    fun n hn => isWhole_natural (h.natural (by simp) n hn)
  smoothing := gives_given (fun b => asRead (.bool b)) (by simp [fields, fieldsNamed_append])
    fun _ _ => rfl

/-- What is read from the sections that were written gives what they were written for. -/
theorem PartialSettings.in_sections {p : PartialSettings} (h : p.Fits) :
    p.In (p.sections.map fun s => (s.1, readSection s.2)) where
  general := gives_given (fun g => readSection g.fields) (by simp [sections, fieldsNamed_append])
    fun g _ => ⟨_, rfl, g.in_fields⟩
  engine := gives_given (fun e => readSection e.fields) (by simp [sections, fieldsNamed_append])
    fun e he => ⟨_, rfl, PartialEngine.in_fields (h.engine e he)⟩
  coordinator := gives_given (fun c => readSection c.fields)
    (by simp [sections, fieldsNamed_append])
    fun c hc => ⟨_, rfl, PartialCoordinator.in_fields (h.coordinator c hc)⟩

theorem PartialEngine.sublist_fields (e : PartialEngine) : (e.fields.map Prod.fst).Sublist
    ["max_steps", "max_positions", "stabilization_repeats", "stabilization_window",
      "loop_unroll_limit", "max_frame_depth", "smoothing"] := by
  simp only [fields, List.map_append]
  exact (sublist_given _ _ _).append ((sublist_given _ _ _).append ((sublist_given _ _ _).append
    ((sublist_given _ _ _).append ((sublist_given _ _ _).append ((sublist_given _ _ _).append
      (sublist_given _ _ _))))))

theorem isScalar_given {α : Type} {name : String} {write : α → Document} {value : Option α}
    (h : ∀ a ∈ value, IsScalar (write a)) : ∀ f ∈ given name write value, IsScalar f.2 := by
  intro f hf
  obtain ⟨a, ha, rfl⟩ := mem_given.mp hf
  exact h a ha

theorem isScalar_ofInt {i : Int} (h : isSigned 64 i = true) : IsScalar (ofInt i) := by
  unfold ofInt
  split
  · have hbound := ((isSigned_iff 63 i).mp h).2
    change i.toNat < 2 ^ 63
    omega
  · exact h

theorem PartialEngine.isScalar_fields {e : PartialEngine} (h : e.Fits) :
    ∀ f ∈ e.fields, IsScalar f.2 := by
  intro f hf
  simp only [fields, List.mem_append] at hf
  obtain hf | hf | hf | hf | hf | hf | hf := hf
  · exact isScalar_given (h.natural (by simp)) f hf
  · exact isScalar_given (h.natural (by simp)) f hf
  · exact isScalar_given (h.natural (by simp)) f hf
  · exact isScalar_given (h.natural (by simp)) f hf
  · exact isScalar_given (fun i hi => isScalar_ofInt (h.loopUnrollLimit i hi)) f hf
  · exact isScalar_given (h.natural (by simp)) f hf
  · exact isScalar_given (fun b _ => show IsScalar (.bool b) from trivial) f hf

def settingsNames : List String :=
  ["general", "engine", "coordinator", "log_level", "max_steps", "max_positions",
    "stabilization_repeats", "stabilization_window", "loop_unroll_limit", "max_frame_depth",
    "smoothing", "iteration_factor"]

theorem isBareName_settingsNames : ∀ name ∈ settingsNames, IsBareName name := by
  simp [settingsNames, IsBareName, isBareKey, Char.isAlphanum, Char.isAlpha, Char.isUpper,
    Char.isLower]

theorem names_of_sublist {β : Type} {fields : List (String × β)} {names : List String}
    (h : (fields.map Prod.fst).Sublist names) (hnames : names.Nodup)
    (hknown : names ⊆ settingsNames) :
    (fields.map Prod.fst).Nodup ∧ ∀ f ∈ fields, IsBareName f.1 :=
  ⟨hnames.sublist h, fun _ hf =>
    isBareName_settingsNames _ (hknown (h.subset (List.mem_map_of_mem hf)))⟩

theorem PartialSettings.areSections {p : PartialSettings} (h : p.Fits) :
    AreSections p.sections := by
  have hsections : (p.sections.map Prod.fst).Sublist ["general", "engine", "coordinator"] := by
    simp only [sections, List.map_append]
    exact (sublist_given _ _ _).append ((sublist_given _ _ _).append (sublist_given _ _ _))
  obtain ⟨hnodup, hbare⟩ := names_of_sublist hsections (by decide) (by decide)
  have hfields : ∀ s ∈ p.sections, ((s.2.map Prod.fst).Nodup ∧ ∀ f ∈ s.2, IsBareName f.1) ∧
      ∀ f ∈ s.2, IsScalar f.2 := by
    intro s hs
    simp only [sections, List.mem_append, mem_given] at hs
    obtain ⟨g, -, rfl⟩ | ⟨e, he, rfl⟩ | ⟨c, hc, rfl⟩ := hs
    · exact ⟨names_of_sublist (sublist_given _ _ _) (by decide) (by decide),
        isScalar_given fun _ _ => trivial⟩
    · exact ⟨names_of_sublist e.sublist_fields (by decide) (by decide),
        PartialEngine.isScalar_fields (h.engine e he)⟩
    · exact ⟨names_of_sublist (sublist_given _ _ _) (by decide) (by decide),
        isScalar_given (h.coordinator c hc)⟩
  exact ⟨hnodup, hbare, fun s hs => (hfields s hs).1.1,
    fun s hs f hf => ⟨(hfields s hs).1.2 f hf, (hfields s hs).2 f hf⟩⟩

/-- Whatever is given has a text that gives it. -/
theorem PartialSettings.exists_text {p : PartialSettings} (h : p.Fits) :
    ∃ text fields, TomlText.render? (table p.sections) = some text ∧
      Toml.parse? text = some (.object fields) ∧ p.In fields := by
  obtain ⟨text, hrender, hparse⟩ := parse?_render (areSections h)
  exact ⟨text, _, hrender, hparse, in_sections h⟩

end

/-! ## Whole settings -/

def Settings.whole (s : Settings) : PartialSettings where
  general := some { logLevel := some s.general.logLevel }
  engine := some
    { maxSteps := some s.engine.maxSteps
      maxPositions := some s.engine.maxPositions
      stabilizationRepeats := some s.engine.stabilizationRepeats
      stabilizationWindow := some s.engine.stabilizationWindow
      loopUnrollLimit := some s.engine.loopUnrollLimit
      maxFrameDepth := some s.engine.maxFrameDepth
      smoothing := some s.engine.smoothing }
  coordinator := some { iterationFactor := some s.coordinator.iterationFactor }

/-- Whether each unsigned number of the settings is a signed one of sixty-four bits too. -/
def Settings.Fits (s : Settings) : Prop :=
  ∀ n ∈ [s.engine.maxSteps, s.engine.maxPositions, s.engine.stabilizationRepeats,
    s.engine.stabilizationWindow, s.engine.maxFrameDepth, s.coordinator.iterationFactor],
    n < Nat.pow 2 63

instance (s : Settings) : Decidable s.Fits :=
  inferInstanceAs (Decidable (∀ n ∈ _, _))

namespace SettingsFile
variable {s : Settings}

theorem parse_of_gives {text : String} {fields : List (String × Document)} {p : PartialSettings}
    (hparse : Toml.parse? text = some (.object fields)) (h : p.In fields) :
    parse text = .ok p.settings := by
  rw [parse, hparse, Option.bind_some, PartialSettings.ofDocument h]

theorem fits_whole (hs : isSigned 64 s.engine.loopUnrollLimit = true) (h : s.Fits) :
    s.whole.Fits where
  engine := by
    rintro e ⟨⟩
    refine ⟨fun n hn => h n ?_, fun i hi => ?_⟩
    · simp only [List.mem_cons, Option.some.injEq, List.not_mem_nil, or_false] at hn ⊢
      tauto
    · cases hi
      exact hs
  coordinator := by
    rintro c ⟨⟩ n ⟨⟩
    exact h _ (by simp)

/-- Settings that fit have a text that is read back. -/
theorem exists_render (hs : isSigned 64 s.engine.loopUnrollLimit = true) (h : s.Fits) :
    ∃ text, render s = .ok text ∧ parse text = .ok s := by
  obtain ⟨text, fields, hrender, hparse, hin⟩ := PartialSettings.exists_text (fits_whole hs h)
  have hdocument : Toml.table s.whole.sections = s.toDocument := rfl
  rw [hdocument] at hrender
  exact ⟨text, by rw [render, hrender], parse_of_gives hparse hin⟩

/-- Settings that do not fit have none. -/
theorem render_of_not_fits (h : ¬ s.Fits) : render s = .error .configuration := by
  simp only [Settings.Fits, not_forall, not_lt] at h
  obtain ⟨n, hn, hlarge⟩ := h
  obtain ⟨inner, hinner, f, hf, hvalue⟩ :
      ∃ inner ∈ s.whole.sections, ∃ f ∈ inner.2, f.2 = .natural n := by
    simp only [List.mem_cons, List.not_mem_nil, or_false] at hn
    obtain rfl | rfl | rfl | rfl | rfl | rfl := hn
    · exact ⟨_, .tail _ (.head _), _, .head _, rfl⟩
    · exact ⟨_, .tail _ (.head _), _, .tail _ (.head _), rfl⟩
    · exact ⟨_, .tail _ (.head _), _, .tail _ (.tail _ (.head _)), rfl⟩
    · exact ⟨_, .tail _ (.head _), _, .tail _ (.tail _ (.tail _ (.head _))), rfl⟩
    · exact ⟨_, .tail _ (.head _), _,
        .tail _ (.tail _ (.tail _ (.tail _ (.tail _ (.head _))))), rfl⟩
    · exact ⟨_, .tail _ (.tail _ (.head _)), _, .head _, rfl⟩
  have hnone : TomlText.render? s.toDocument = none :=
    Toml.render?_eq_none hinner hf (hvalue ▸ if_neg (not_lt.mpr hlarge))
  rw [render, hnone]

end SettingsFile
end Choreography
