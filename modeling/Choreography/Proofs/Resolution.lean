import Choreography.Proofs.MachineIntegers
import Choreography.Proofs.Passes

/-! # Resolution is complete

A pass ends with every widget up to date, has computed those that were not exactly once, and never
needs more rounds than there were such widgets. A widget that is not forced is given the final
ticks of all that it waits for. Whether the rounds suffice is up to their budget, whose product may
wrap around; what they leave is forced. -/
namespace Choreography.Coordinator
variable {H : Type} [Handle H] {c : Coordinator H} {given : String → Table Nat} {p : Pass H}

/-- A pass whose forced widgets are among the computed ones, and whose other computed widgets were
given final ticks. -/
structure Sound (c : Coordinator H) (given : String → Table Nat) (p : Pass H) : Prop where
  tracks : Tracks c given p
  forced : ∀ id ∈ p.summary.forced, id ∈ p.summary.computed
  informed : ∀ id ∈ p.summary.computed, id ∉ p.summary.forced → Informed c given p id

theorem Sound.start (c : Coordinator H) : Sound c (fun _ => ∅) ⟨c, ⟨[], [], 0⟩⟩ :=
  ⟨Tracks.start c _, by simp, by simp⟩

/-- The informed widgets stay informed while another one is computed. -/
theorem Sound.informed_compute (h : Sound c given p) {id other : String}
    (hid : id ∈ p.coordinator.unresolved) (ho : other ∈ p.summary.computed)
    (hf : other ∉ p.summary.forced) :
    Informed c (Function.update given id p.coordinator.ticks) (p.compute id).value other := by
  have hnew := ((h.tracks.mem_unresolved_iff id).1 hid).2
  have hne : other ≠ id := fun heq => hnew (heq ▸ ho)
  exact h.tracks.informed_compute_of_ne hid hne (h.informed other ho hf)

theorem Sound.compute (h : Sound c given p) {id : String} (hid : id ∈ p.coordinator.unresolved)
    (hu : Unblocked c p id) :
    Sound c (Function.update given id p.coordinator.ticks) (p.compute id).value where
  tracks := h.tracks.compute hid
  forced := fun x hx => List.mem_append_left _ (h.forced x hx)
  informed := by
    intro x hx hf
    rcases List.mem_append.1 hx with hx | hx
    · exact h.informed_compute hid hx hf
    · rw [List.mem_singleton.1 hx]
      exact h.tracks.informed_compute_self hid hu

theorem Sound.force (h : Sound c given p) {id : String} (hid : id ∈ p.coordinator.unresolved) :
    Sound c (Function.update given id p.coordinator.ticks) (p.force id).value := by
  have htracks := h.tracks.compute hid
  refine ⟨⟨htracks.keys, htracks.waits, htracks.nodup, htracks.outdated, htracks.resolved,
    htracks.handles, htracks.owner, htracks.unchanged, htracks.exact⟩, ?_, ?_⟩
  · intro x hx
    rcases List.mem_append.1 hx with hx | hx
    · exact List.mem_append_left _ (h.forced x hx)
    · exact List.mem_append_right _ hx
  · intro x hx hf
    have hf' : x ∉ p.summary.forced ∧ x ∉ [id] := not_or.1 fun hor => hf (List.mem_append.2 hor)
    rcases List.mem_append.1 hx with hx | hx
    · exact h.informed_compute hid hx hf'.1
    · exact absurd hx hf'.2

theorem Sound.count (h : Sound c given p) : Sound c given p.count :=
  ⟨⟨h.tracks.keys, h.tracks.waits, h.tracks.nodup, h.tracks.outdated, h.tracks.resolved,
    h.tracks.handles, h.tracks.owner, h.tracks.unchanged, h.tracks.exact⟩, h.forced, h.informed⟩

/-- A property of passes, with the ticks that they have given, that every step of a round keeps. -/
structure Kept (c : Coordinator H) (P : (String → Table Nat) → Pass H → Prop) : Prop where
  tracks : ∀ {given p}, P given p → Tracks c given p
  count : ∀ {given p}, P given p → P given p.count
  compute : ∀ {given p id}, P given p → id ∈ p.coordinator.unresolved → Unblocked c p id →
    P (Function.update given id p.coordinator.ticks) (p.compute id).value
  force : ∀ {given p id cycle}, P given p → p.coordinator.IsCycle cycle → id ∈ cycle →
    P (Function.update given id p.coordinator.ticks) (p.force id).value

/-- It is kept too when what the rounds have left is forced. -/
structure Lasting (c : Coordinator H) (P : (String → Table Nat) → Pass H → Prop) : Prop
    extends Kept c P where
  exhaust : ∀ {given p id}, P given p → id ∈ p.coordinator.unresolved →
    P (Function.update given id p.coordinator.ticks) (p.force id).value

theorem lasting_sound (c : Coordinator H) : Lasting c (Sound c) where
  tracks h := h.tracks
  count h := h.count
  compute h hid hu := h.compute hid hu
  force h hcycle hid := h.force (hcycle.outdated _ hid)
  exhaust h hid := h.force hid

theorem summary_computeAll (p : Pass H) (ids : List String) :
    (p.computeAll ids).value.summary =
      { p.summary with computed := p.summary.computed ++ ids } := by
  induction ids generalizing p with
  | nil => simp [Pass.computeAll]
  | cons id rest ih =>
    refine (ih _).trans ?_
    simp [Pass.compute, Logged.value_bind]

theorem summary_forceAll (p : Pass H) (ids : List String) :
    (p.forceAll ids).value.summary =
      { p.summary with
        computed := p.summary.computed ++ ids
        forced := p.summary.forced ++ ids } := by
  induction ids generalizing p with
  | nil => simp [Pass.forceAll]
  | cons id rest ih =>
    refine (ih _).trans ?_
    simp [Pass.force, Pass.compute, Logged.value_bind]

theorem value_rounds_of_nil (hun : p.coordinator.unresolved = []) (n : Nat) :
    (p.rounds n).value = p := by
  cases n with
  | zero => rfl
  | succ n => rw [Pass.rounds, hun, Logged.value_pure]

theorem value_rounds_of_cons {first : String} {rest : List String}
    (hun : p.coordinator.unresolved = first :: rest) (n : Nat) :
    (p.rounds (n + 1)).value = ((p.round first rest).value.rounds n).value := by
  rw [Pass.rounds, hun, Logged.value_bind]

def Pass.ready (p : Pass H) : List String := p.coordinator.unresolved.filter p.coordinator.isReady

/-- A round counts one iteration. It computes all widgets that are ready, or else it forces one. -/
theorem summary_round {first : String} {rest : List String}
    (hun : p.coordinator.unresolved = first :: rest) :
    (p.ready ≠ [] ∧ (p.round first rest).value.summary =
      { p.summary with
        computed := p.summary.computed ++ p.ready
        iterations := p.summary.iterations + 1 }) ∨
    (p.ready = [] ∧ ∃ id, (p.round first rest).value.summary =
      ⟨p.summary.computed ++ [id], p.summary.forced ++ [id], p.summary.iterations + 1⟩) := by
  unfold Pass.round Pass.ready
  simp only
  rw [← hun]
  split
  · rename_i hstuck
    exact .inr ⟨List.isEmpty_iff.1 hstuck, _, rfl⟩
  · rename_i hready
    exact .inl ⟨fun hnil => hready (List.isEmpty_iff.2 hnil), summary_computeAll _ _⟩

/-- A round counts one iteration and computes at least one widget. -/
theorem lt_computed_round {first : String} {rest : List String}
    (hun : p.coordinator.unresolved = first :: rest) :
    (p.round first rest).value.summary.iterations = p.summary.iterations + 1 ∧
      p.summary.computed.length < (p.round first rest).value.summary.computed.length := by
  rcases summary_round hun with ⟨hready, hsummary⟩ | ⟨-, id, hsummary⟩
  · have hpos := List.length_pos_of_ne_nil hready
    rw [hsummary]
    exact ⟨rfl, by rw [List.length_append]; omega⟩
  · rw [hsummary]
    exact ⟨rfl, by rw [List.length_append, List.length_singleton]; omega⟩

section
variable {P : (String → Table Nat) → Pass H → Prop}

/-- The rest of a batch stays out of date when one of its widgets is computed. -/
theorem Kept.unresolved_of_computed (hP : Kept c P) {given' : String → Table Nat} {p' : Pass H}
    (h : P given p) (h' : P given' p') {id : String} {rest : List String} (hnew : id ∉ rest)
    (hrest : ∀ x ∈ rest, x ∈ p.coordinator.unresolved)
    (hcomputed : p'.summary.computed = p.summary.computed ++ [id]) :
    ∀ x ∈ rest, x ∈ p'.coordinator.unresolved := by
  intro x hx
  obtain ⟨hout, hx'⟩ := ((hP.tracks h).mem_unresolved_iff x).1 (hrest x hx)
  refine ((hP.tracks h').mem_unresolved_iff x).2 ⟨hout, fun hm => ?_⟩
  rw [hcomputed] at hm
  rcases List.mem_append.1 hm with hm | hm
  · exact hx' hm
  · exact hnew (List.mem_singleton.1 hm ▸ hx)

/-- All widgets of a batch that was ready at its start may be computed one after the other. -/
theorem Kept.computeAll (hP : Kept c P) (h : P given p) {ids : List String} (hnodup : ids.Nodup)
    (hids : ∀ id ∈ ids, id ∈ p.coordinator.unresolved) (hu : ∀ id ∈ ids, Unblocked c p id) :
    ∃ given', P given' (p.computeAll ids).value := by
  induction ids generalizing p given with
  | nil => exact ⟨given, h⟩
  | cons id rest ih =>
    obtain ⟨hnew, hrest⟩ := List.nodup_cons.1 hnodup
    have hid := hids id List.mem_cons_self
    have hnext := hP.compute h hid (hu id List.mem_cons_self)
    have hlater := hP.unresolved_of_computed h hnext hnew
      (fun x hx => hids x (List.mem_cons_of_mem _ hx)) rfl
    exact ih hnext hrest hlater fun x hx event owner ha =>
      (hP.tracks h).isResolved_compute hid (hu x (List.mem_cons_of_mem _ hx) event owner ha)

theorem Kept.round (hP : Kept c P) (h : P given p) {first : String} {rest : List String}
    (hun : p.coordinator.unresolved = first :: rest) :
    ∃ given', P given' (p.round first rest).value := by
  unfold Pass.round
  simp only
  rw [← hun]
  split
  · rename_i hstuck
    have hnone : ∀ id ∈ p.coordinator.unresolved, p.coordinator.isReady id = false := by
      intro id hid
      have hfilter := List.filter_eq_nil_iff.1 (List.isEmpty_iff.1 hstuck) id hid
      simpa using hfilter
    obtain ⟨cycle, hcycle, hmem⟩ := choose_mem_cycle first (hun ▸ List.cons_ne_nil _ _) hnone
    exact ⟨_, hP.force (hP.count h) hcycle hmem⟩
  · have hnodup : (p.coordinator.unresolved.filter p.coordinator.isReady).Nodup :=
      nodup_unresolved.filter _
    exact hP.computeAll (hP.count h) hnodup (fun id hid => (List.mem_filter.1 hid).1)
      fun id hid => (hP.tracks h).unblocked_of_isReady (List.mem_filter.1 hid).2

/-- Enough rounds leave nothing out of date. -/
theorem Kept.rounds (hP : Kept c P) {budget : Nat} (h : P given p)
    (hi : p.summary.iterations ≤ p.summary.computed.length) :
    ∃ given', P given' (p.rounds budget).value ∧
      (p.rounds budget).value.summary.iterations ≤
        (p.rounds budget).value.summary.computed.length ∧
      (p.coordinator.unresolved.length ≤ budget →
        (p.rounds budget).value.coordinator.unresolved = []) := by
  induction budget generalizing p given with
  | zero => exact ⟨given, h, hi, fun hb => List.length_eq_zero_iff.1 (Nat.le_zero.1 hb)⟩
  | succ budget ih =>
    cases hun : p.coordinator.unresolved with
    | nil =>
      rw [value_rounds_of_nil hun]
      exact ⟨given, h, hi, fun _ => hun⟩
    | cons first rest =>
      obtain ⟨given', hkept⟩ := hP.round h hun
      obtain ⟨hiter, hlt⟩ := lt_computed_round hun
      have hbefore := (hP.tracks h).length_unresolved
      have hafter := (hP.tracks hkept).length_unresolved
      obtain ⟨given'', hlater, hmore, hover⟩ := ih hkept (by omega)
      rw [value_rounds_of_cons hun, ← hun]
      exact ⟨given'', hlater, hmore, fun hb => hover (by omega)⟩

/-- What the rounds have left is computed too. -/
theorem Lasting.forceAll (hP : Lasting c P) (h : P given p) {ids : List String}
    (hnodup : ids.Nodup) (hids : ∀ id ∈ ids, id ∈ p.coordinator.unresolved) :
    ∃ given', P given' (p.forceAll ids).value := by
  induction ids generalizing p given with
  | nil => exact ⟨given, h⟩
  | cons id rest ih =>
    obtain ⟨hnew, hrest⟩ := List.nodup_cons.1 hnodup
    have hnext := hP.exhaust h (hids id List.mem_cons_self)
    have hlater := hP.toKept.unresolved_of_computed h hnext hnew
      (fun x hx => hids x (List.mem_cons_of_mem _ hx)) rfl
    exact ih hnext hrest hlater

end

omit [Handle H] in
/-- Unless the product wraps around, the budget has a round for each widget that is out of date. -/
theorem length_unresolved_le_budget (h : c.factor * max 1 c.widgets.size < 2 ^ 64) :
    c.unresolved.length ≤ c.budget := by
  have hle : c.unresolved.length ≤ c.widgets.keys.length := List.length_filter_le _ _
  rw [Table.length_keys] at hle
  calc c.unresolved.length ≤ c.widgets.size := hle
    _ ≤ max 1 c.widgets.size := Nat.le_max_right _ _
    _ ≤ c.factor * max 1 c.widgets.size := Nat.le_mul_of_pos_left _ c.factor_pos
    _ = c.budget := (wrapUnsigned_of_lt h).symm

def lastRound (c : Coordinator H) : Pass H := ((⟨c, ⟨[], [], 0⟩⟩ : Pass H).rounds c.budget).value

/-- What the rounds have left is forced. -/
theorem forced_resolve (c : Coordinator H) :
    c.resolve.value.2.forced =
      c.lastRound.summary.forced ++ c.lastRound.coordinator.unresolved :=
  congrArg Summary.forced (summary_forceAll c.lastRound c.lastRound.coordinator.unresolved)

/-- A pass whose rounds suffice is over when they are. -/
theorem value_resolve (hover : c.lastRound.coordinator.unresolved = []) :
    c.resolve.value = (c.lastRound.coordinator, c.lastRound.summary) := by
  change ((c.lastRound.forceAll c.lastRound.coordinator.unresolved).value.coordinator,
    (c.lastRound.forceAll c.lastRound.coordinator.unresolved).value.summary) = _
  rw [hover]
  rfl

section
variable {P : (String → Table Nat) → Pass H → Prop}

theorem Kept.lastRound (hP : Kept c P) (h : P given ⟨c, ⟨[], [], 0⟩⟩) :
    ∃ given', P given' c.lastRound ∧
      c.lastRound.summary.iterations ≤ c.lastRound.summary.computed.length ∧
      (c.unresolved.length ≤ c.budget → c.lastRound.coordinator.unresolved = []) :=
  hP.rounds h (Nat.le_refl _)

/-- What every step of a round keeps holds of a whole pass whose rounds suffice. -/
theorem Kept.resolve (hP : Kept c P) (h : P given ⟨c, ⟨[], [], 0⟩⟩)
    (hover : c.lastRound.coordinator.unresolved = []) :
    ∃ given', P given' ⟨c.resolve.value.1, c.resolve.value.2⟩ := by
  obtain ⟨given', hkept, -⟩ := hP.lastRound h
  rw [value_resolve hover]
  exact ⟨given', hkept⟩

/-- What lasts to the end holds of every pass. -/
theorem Lasting.resolve (hP : Lasting c P) (h : P given ⟨c, ⟨[], [], 0⟩⟩) :
    ∃ given', P given' ⟨c.resolve.value.1, c.resolve.value.2⟩ ∧
      c.resolve.value.2.iterations ≤ c.resolve.value.2.computed.length ∧
      c.resolve.value.1.unresolved = [] := by
  obtain ⟨given', hkept, hiter, -⟩ := hP.toKept.lastRound h
  obtain ⟨given'', hlast⟩ := hP.forceAll hkept nodup_unresolved fun _ hid => hid
  have hbefore := (hP.tracks hkept).length_unresolved
  have hend : c.resolve.value.2 = { c.lastRound.summary with
    computed := c.lastRound.summary.computed ++ c.lastRound.coordinator.unresolved
    forced := c.lastRound.summary.forced ++ c.lastRound.coordinator.unresolved } :=
    summary_forceAll _ _
  have hafter : c.resolve.value.2.computed.length + c.resolve.value.1.unresolved.length =
    c.unresolved.length := (hP.tracks hlast).length_unresolved
  rw [hend, List.length_append] at hafter
  refine ⟨given'', hlast, ?_, List.length_eq_zero_iff.1 (by omega)⟩
  rw [hend, List.length_append]
  exact Nat.le_add_right_of_le hiter

end

theorem exists_sound_resolve (c : Coordinator H) :
    ∃ given, Sound c given ⟨c.resolve.value.1, c.resolve.value.2⟩ ∧
      c.resolve.value.2.iterations ≤ c.resolve.value.2.computed.length ∧
      c.resolve.value.1.unresolved = [] :=
  (lasting_sound c).resolve (Sound.start c)

/-- A budget with a round for each widget that is out of date suffices. -/
theorem unresolved_lastRound (hbudget : c.unresolved.length ≤ c.budget) :
    c.lastRound.coordinator.unresolved = [] := by
  obtain ⟨given, -, -, hover⟩ := (lasting_sound c).toKept.lastRound (Sound.start c)
  exact hover hbudget

theorem mem_computed_resolve_iff (c : Coordinator H) (id : String) :
    id ∈ c.resolve.value.2.computed ↔ id ∈ c.unresolved := by
  obtain ⟨given, hsound, _, hun⟩ := exists_sound_resolve c
  refine ⟨hsound.tracks.outdated id, fun hid => ?_⟩
  by_contra hnew
  have hleft := (hsound.tracks.mem_unresolved_iff id).2 ⟨hid, hnew⟩
  rw [hun] at hleft
  exact List.not_mem_nil hleft

end Choreography.Coordinator
