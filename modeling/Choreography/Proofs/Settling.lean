import Choreography.Proofs.OpenLoops
import Choreography.Proofs.Preludes
import Choreography.Proofs.Stabilization

/-! # The pass that settles

The bounded memory of places that all long loops of a run share is a window over the places where
their passes have ended since the run began. A run stops as stabilized with the first pass whose
place fills enough of the window, and with no other turn. -/
namespace Choreography
namespace Machine

variable {settings : EngineSettings} {limit : Nat} {m m' : Machine} {turns : List Machine}
  {final : Machine × Stop} {places : List (Int × Int)} {place : Int × Int} {k : Nat}

/-- The place at an index is often enough among the latest ones up to it, as many as a run
remembers. -/
def SettlesAt (settings : EngineSettings) (places : List (Int × Int)) (k : Nat) : Prop :=
  ∃ place, places[k]? = some place ∧
    settings.stabilizationRepeats ≤ (latest settings (places.take (k + 1))).count place

/-- The run stops as stabilized in the turn that ends the pass at an index, counted from zero. -/
def StabilizesAt (turns : List Machine) (why : Stop) (k : Nat) : Prop :=
  why = .stabilized ∧ (passEnds turns).length = k + 1 ∧
    turns.getLast?.any (·.longPass?.isSome) = true

/-- A run enters a loop without end and never breaks it off, its long loops all end their passes at
one place, and it does not meet a limit. -/
structure StaysPut (turns : List Machine) (why : Stop) (place : Int × Int) : Prop where
  entered : ∃ m ∈ turns, ∃ site, m.entered? = some (site, none)
  unbroken : ∀ m ∈ turns, m.breaksOff = false
  places : ∀ other ∈ passEnds turns, other = place
  unlimited : why.isLimit = false

/-! ### Windows -/

theorem SettlesAt.lt_length (h : SettlesAt settings places k) : k < places.length := by
  obtain ⟨place, hplace, -⟩ := h
  exact (List.getElem?_eq_some_iff.mp hplace).1

/-- Whether a place settles does not depend on the places after it. -/
theorem settlesAt_append (more : List (Int × Int)) (hk : k < places.length) :
    SettlesAt settings (places ++ more) k ↔ SettlesAt settings places k := by
  unfold SettlesAt
  rw [List.getElem?_append_left hk, List.take_append_of_le_length hk]

theorem settlesAt_concat : SettlesAt settings (places ++ [place]) places.length ↔
    settings.stabilizationRepeats ≤ (latest settings (places ++ [place])).count place := by
  have hwhole : (places ++ [place]).take (places.length + 1) = places ++ [place] :=
    List.take_of_length_le (by rw [List.length_append, List.length_singleton])
  unfold SettlesAt
  rw [List.getElem?_concat_length, hwhole]
  simp

theorem settles_concat_iff (hrepeats : 1 ≤ settings.stabilizationRepeats) :
    settles settings (places ++ [place]) = true ↔
      SettlesAt settings (places ++ [place]) places.length := by
  have hon : (settings.stabilizationRepeats != 0) = true := bne_iff_ne.mpr (by omega)
  rw [settles_append, settlesAt_concat, hon, Bool.true_and, decide_eq_true_iff]

theorem length_latest_le (settings : EngineSettings) (places : List (Int × Int)) :
    (latest settings places).length ≤ max 1 settings.stabilizationWindow := by
  rw [latest, List.rtake, List.length_drop]
  omega

/-- No place can fill a window that is too narrow. -/
theorem not_settlesAt_of_narrow
    (h : max 1 settings.stabilizationWindow < settings.stabilizationRepeats) :
    ¬ SettlesAt settings places k := by
  rintro ⟨place, -, hcount⟩
  have hlength := length_latest_le settings (places.take (k + 1))
  have hfew : (latest settings (places.take (k + 1))).count place ≤
      (latest settings (places.take (k + 1))).length := List.count_le_length
  omega

/-- A place that never changes settles as soon as it has been there often enough. -/
theorem settlesAt_of_constant (hplace : ∀ other ∈ places, other = place)
    (hwide : settings.stabilizationRepeats ≤ max 1 settings.stabilizationWindow) :
    SettlesAt settings places k ↔ k < places.length ∧ settings.stabilizationRepeats ≤ k + 1 := by
  have hsame : places = List.replicate places.length place := List.eq_replicate_length.mpr hplace
  generalize places.length = n at hsame
  subst hsame
  unfold SettlesAt latest List.rtake
  rw [List.take_replicate, List.drop_replicate, List.length_replicate]
  constructor
  · rintro ⟨other, hother, hcount⟩
    obtain ⟨hk, rfl⟩ := List.getElem?_eq_some_iff.mp hother
    rw [List.length_replicate] at hk
    rw [List.getElem_replicate, List.count_replicate_self] at hcount
    omega
  · rintro ⟨hk, hcount⟩
    refine ⟨place, List.getElem?_replicate_of_lt hk, ?_⟩
    rw [List.count_replicate_self]
    omega

/-! ### Turns -/

theorem passEnds_concat (turns : List Machine) (m : Machine) :
    passEnds (turns ++ [m]) = passEnds turns ++ (m.longPass?.map Prod.snd).toList := by
  rw [passEnds, List.filterMap_append]
  cases h : m.longPass? <;> simp [passEnds, h]

theorem unsettled_concat (hrepeats : 1 ≤ settings.stabilizationRepeats)
    (h : ∀ k, ¬ SettlesAt settings places k)
    (hplace : settles settings (places ++ [place]) = false) :
    ∀ k, ¬ SettlesAt settings (places ++ [place]) k := by
  intro k hk
  have hlength := hk.lt_length
  rw [List.length_append, List.length_singleton] at hlength
  rcases Nat.lt_succ_iff_lt_or_eq.mp hlength with hless | rfl
  · exact h k ((settlesAt_append _ hless).mp hk)
  · rw [(settles_concat_iff hrepeats).mpr hk] at hplace
    cases hplace

/-- A turn after which a run goes on remembers the place of a pass that it ends, and the place does
not settle. -/
theorem unsettled_advance {seen : List Machine} (hrepeats : 1 ≤ settings.stabilizationRepeats)
    (h : m.Remembers settings (passEnds seen) ∧ ∀ k, ¬ SettlesAt settings (passEnds seen) k)
    (hadvance : m.advance settings limit = .running m') :
    m'.Remembers settings (passEnds (seen ++ [m])) ∧
      ∀ k, ¬ SettlesAt settings (passEnds (seen ++ [m])) k := by
  obtain ⟨hremembers, hunsettled⟩ := h
  obtain ⟨top, below, hstack, -, -, hturn⟩ := turn_of_advance hadvance
  rw [passEnds_concat]
  cases hpass : m.longPass? with
  | none =>
    have hrecent : (m.turn settings top below).machine.recent = m.recent :=
      (turn_of_not_longPass hstack hpass).1
    rw [hturn] at hrecent
    rw [Option.map_none, Option.toList_none, List.append_nil]
    exact ⟨fun hon => hrecent.trans (hremembers hon), hunsettled⟩
  | some pass =>
    rcases turn_of_longPass hstack hpass hremembers with ⟨-, n, hn⟩ | ⟨hplace, n, hn, hnext⟩
    · rw [hturn] at hn
      cases hn
    · rw [hturn] at hn
      cases hn
      exact ⟨hnext, unsettled_concat hrepeats hunsettled hplace⟩

/-- As long as a run goes on no place has settled. -/
theorem unsettled_path {ms : List Machine} (hrepeats : 1 ≤ settings.stabilizationRepeats)
    (hm : m.Remembers settings []) (h : Path settings limit m ms m') :
    ∀ k, ¬ SettlesAt settings (passEnds ms) k := by
  have hnone : ∀ k, ¬ SettlesAt settings [] k := fun k hk => Nat.not_lt_zero k hk.lt_length
  exact (h.induction
    (P := fun seen x => x.Remembers settings (passEnds seen) ∧
      ∀ k, ¬ SettlesAt settings (passEnds seen) k)
    ⟨hm, hnone⟩ fun seen x x' _ hstep hx => unsettled_advance hrepeats hx hstep).2

/-! ### Runs -/

/-- A run goes on where a path has led to. -/
theorem Path.append_turns {ms rest : List Machine} (h : Path settings limit m ms m')
    (hrest : Turns settings limit m' rest final) : Turns settings limit m (ms ++ rest) final := by
  induction h with
  | nil => exact hrest
  | cons hstep _ ih => exact .onward hstep (ih hrest)

/-- The last turn of a run is taken where a path has led to. -/
theorem Turns.exists_last (h : Turns settings limit m turns final) (hne : turns ≠ []) :
    ∃ before last, turns = before ++ [last] ∧ Path settings limit m before last := by
  induction h with
  | before => exact absurd rfl hne
  | @amid m => exact ⟨[], m, rfl, .nil m⟩
  | @onward m next ms final hadvance _ ih =>
    by_cases hms : ms = []
    · exact ⟨[], m, by rw [hms]; rfl, .nil m⟩
    · obtain ⟨before, last, rfl, hpath⟩ := ih hms
      exact ⟨m :: before, last, rfl, .cons hadvance hpath⟩

/-- A run that stops as stabilized ends a pass in its last turn. -/
theorem Turns.longPass_of_stabilized (h : Turns settings limit m turns final)
    (hwhy : final.2 = .stabilized) : turns.getLast?.any (·.longPass?.isSome) = true := by
  induction h with
  | before hstop =>
    cases hwhy
    exact absurd hstop not_stabilized_before
  | @amid m m' top below why hstack hturn hstop =>
    cases hwhy
    rw [hturn] at hstop
    cases hpass : m.longPass? with
    | some pass => simp [hpass]
    | none => exact absurd hstop ((turn_of_not_longPass hstack hpass).2 m')
  | @onward m next ms final _ _ ih =>
    have hlast := ih hwhy
    have hne : ms ≠ [] := by
      rintro rfl
      cases hlast
    rwa [List.getLast?_cons_of_ne_nil hne]

/-- A run that has not remembered anything yet stops as stabilized with the first place that
settles. -/
theorem stabilizesAt_iff (h : Turns settings limit m turns final) (hm : m.Remembers settings [])
    (hrepeats : 1 ≤ settings.stabilizationRepeats) (k : Nat) :
    StabilizesAt turns final.2 k ↔
      SettlesAt settings (passEnds turns) k ∧ ∀ j < k, ¬ SettlesAt settings (passEnds turns) j := by
  have hstop : final.2 = .stabilized ↔ settles settings (passEnds turns) = true :=
    stabilized_iff_settles h hm (by simp [settles])
  by_cases hne : turns = []
  · subst hne
    constructor
    · rintro ⟨-, hlength, -⟩
      cases hlength
    · rintro ⟨hk, -⟩
      exact absurd hk.lt_length (Nat.not_lt_zero k)
  -- Nothing settles before the last turn, so it is for the place of that turn to decide.
  obtain ⟨before, last, rfl, hpath⟩ := h.exists_last hne
  have hbefore := unsettled_path hrepeats hm hpath
  have hends := passEnds_concat before last
  cases hpass : last.longPass? with
  | none =>
    rw [hpass, Option.map_none, Option.toList_none, List.append_nil] at hends
    rw [hends]
    constructor
    · rintro ⟨-, -, hlast⟩
      simp [hpass] at hlast
    · rintro ⟨hk, -⟩
      exact absurd hk (hbefore k)
  | some pass =>
    rw [hpass, Option.map_some, Option.toList_some] at hends
    rw [hends, settles_concat_iff hrepeats] at hstop
    rw [StabilizesAt, hstop, hends, List.length_append, List.length_singleton]
    constructor
    · rintro ⟨hlast, hlength, -⟩
      obtain rfl : k = (passEnds before).length := by omega
      exact ⟨hlast, fun j hj hsettles => hbefore j ((settlesAt_append _ hj).mp hsettles)⟩
    · rintro ⟨hk, -⟩
      have hlength := hk.lt_length
      rw [List.length_append, List.length_singleton] at hlength
      obtain hless | rfl := Nat.lt_succ_iff_lt_or_eq.mp hlength
      · exact absurd ((settlesAt_append _ hless).mp hk) (hbefore k)
      · exact ⟨hk, rfl, by simp [hpass]⟩

/-- A run that stops as stabilized does so at the end of some pass. -/
theorem exists_stabilizesAt (h : Turns settings limit m turns final) (hm : m.Remembers settings [])
    (hwhy : final.2 = .stabilized) : ∃ k, StabilizesAt turns final.2 k := by
  have hsettles := (stabilized_iff_settles h hm (by simp [settles])).mp hwhy
  rw [List.nil_append] at hsettles
  cases hplaces : passEnds turns with
  | nil =>
    rw [hplaces] at hsettles
    simp [settles] at hsettles
  | cons place places =>
    exact ⟨places.length, hwhy, by rw [hplaces]; rfl, h.longPass_of_stabilized hwhy⟩

/-- A run that stays put stops as stabilized after as many passes as have to end at one place. -/
theorem StaysPut.stabilizes (h : Turns settings limit m turns final)
    (hm : m.Remembers settings []) (hrepeats : 1 ≤ settings.stabilizationRepeats)
    (hput : StaysPut turns final.2 place)
    (hwide : settings.stabilizationRepeats ≤ max 1 settings.stabilizationWindow) :
    final.2 = .stabilized ∧ (passEnds turns).length = settings.stabilizationRepeats := by
  have hnot := h.ne_completed (.inr hput.entered) hput.unbroken
  have hwhy : final.2 = .stabilized := by
    have hlimit := hput.unlimited
    cases hstop : final.2 with
    | completed => exact absurd hstop hnot
    | stabilized => rfl
    | stepLimit => rw [hstop] at hlimit; cases hlimit
    | frameLimit => rw [hstop] at hlimit; cases hlimit
    | tooDeep => rw [hstop] at hlimit; cases hlimit
  obtain ⟨k, hk⟩ := exists_stabilizesAt h hm hwhy
  have hlength := hk.2.1
  obtain ⟨hsettles, hfirst⟩ := (stabilizesAt_iff h hm hrepeats k).mp hk
  have hmany := ((settlesAt_of_constant hput.places hwide).mp hsettles).2
  have hfew : ¬ settings.stabilizationRepeats < k + 1 := by
    intro hless
    refine hfirst (settings.stabilizationRepeats - 1) (by omega) ?_
    exact (settlesAt_of_constant hput.places hwide).mpr ⟨by omega, by omega⟩
  exact ⟨hwhy, by omega⟩

end Machine

namespace Performance
open Machine

variable {turns : List Machine}

/-- A run stops as stabilized with the first pass of its long loops whose place settles. A run that
stays put does so after as many passes as have to end at one place, if there is room for them in the
window. Where there is none, no run stops so. -/
theorem stabilizes_with_first_settled (p : Performance) (maxSteps : Option Nat)
    (hrepeats : 1 ≤ p.settings.stabilizationRepeats)
    (hturns : Turns p.settings (p.limit maxSteps) (.start p.program p.recorder) turns
      (p.outcome maxSteps)) :
    (∀ k, StabilizesAt turns (p.perform maxSteps).why k ↔
      SettlesAt p.settings (passEnds turns) k ∧
        ∀ j < k, ¬ SettlesAt p.settings (passEnds turns) j) ∧
    (∀ place, StaysPut turns (p.perform maxSteps).why place →
      p.settings.stabilizationRepeats ≤ max 1 p.settings.stabilizationWindow →
      (p.perform maxSteps).why = .stabilized ∧
        (passEnds turns).length = p.settings.stabilizationRepeats) ∧
    (max 1 p.settings.stabilizationWindow < p.settings.stabilizationRepeats →
      (p.perform maxSteps).why ≠ .stabilized) := by
  have hstart : (Machine.start p.program p.recorder).Remembers p.settings [] :=
    fun _ => (List.rtake_nil _).symm
  refine ⟨stabilizesAt_iff hturns hstart hrepeats,
    fun place hput hwide => hput.stabilizes hturns hstart hrepeats hwide, fun hnarrow hwhy => ?_⟩
  obtain ⟨k, hk⟩ := exists_stabilizesAt hturns hstart hwhy
  exact not_settlesAt_of_narrow hnarrow ((stabilizesAt_iff hturns hstart hrepeats k).mp hk).1

def pacing (window : Nat) : Performance :=
  { playing [.forever [.move (.along .right .one), .move (.along .left .one)]] with
    settings := { stabilizationWindow := window } }

def pacingTurns : List Machine := (pacing 10).stretch 0 15 ++ [(pacing 10).after 15]

theorem turns_pacing : Turns (pacing 10).settings ((pacing 10).limit none)
    (.start (pacing 10).program (pacing 10).recorder) pacingTurns ((pacing 10).outcome none) := by
  have hlast : ∃ final, Turns (pacing 10).settings ((pacing 10).limit none) ((pacing 10).after 15)
      [(pacing 10).after 15] final := ⟨_, .amid rfl rfl rfl⟩
  obtain ⟨final, hfinal⟩ := hlast
  have hturns := ((pacing 10).path_stretch 0 15).append_turns hfinal
  rw [← hturns.run_eq] at hturns
  exact hturns

theorem stabilizes_with_first_settled_pacing :
    1 ≤ (pacing 10).settings.stabilizationRepeats ∧
      StaysPut pacingTurns ((pacing 10).perform none).why (0, 0) ∧
      ((pacing 10).perform none).why = .stabilized ∧ (passEnds pacingTurns).length = 5 ∧
      StabilizesAt pacingTurns ((pacing 10).perform none).why 4 ∧
      ((pacing 4).perform none).why ≠ .stabilized := by
  have hput : StaysPut pacingTurns ((pacing 10).perform none).why (0, 0) :=
    ⟨⟨_, List.mem_cons_self, [0], rfl⟩, by decide +kernel, by decide +kernel, by cbv⟩
  obtain ⟨hiff, hstays, -⟩ :=
    stabilizes_with_first_settled (pacing 10) none (by decide) turns_pacing
  obtain ⟨hwhy, hlength⟩ : _ ∧ (passEnds pacingTurns).length = 5 :=
    hstays (0, 0) hput (by decide)
  have hfifth : StabilizesAt pacingTurns ((pacing 10).perform none).why 4 := by
    have hsettles : ∀ k, SettlesAt (pacing 10).settings (passEnds pacingTurns) k ↔
        k < (passEnds pacingTurns).length ∧ 5 ≤ k + 1 := fun k =>
      settlesAt_of_constant hput.places (by decide)
    refine (hiff 4).mpr ⟨(hsettles 4).mpr (by omega), fun j hj hj' => ?_⟩
    have hmany := (hsettles j).mp hj'
    omega
  obtain ⟨others, hothers⟩ := exists_turns (pacing 4).settings ((pacing 4).limit none)
    (.start (pacing 4).program (pacing 4).recorder)
  obtain ⟨-, -, hnever⟩ := stabilizes_with_first_settled (pacing 4) none (by decide) hothers
  exact ⟨by decide, hput, hwhy, hlength, hfifth, hnever (by decide)⟩

end Performance
end Choreography
