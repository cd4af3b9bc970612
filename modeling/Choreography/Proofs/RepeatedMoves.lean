import Choreography.Proofs.Preludes
import Choreography.Proofs.Stabilization
import Choreography.Proofs.WholeSteps

/-! # Repeated movements

A loop that repeats one movement makes all its passes, because they end at different places and so
never settle. Each pass goes on where the one before it has dropped what was left of its distance,
so the loop adds what one movement over all the whole steps adds. -/
namespace Choreography
namespace Machine
open Recorder

variable {settings : EngineSettings} {limit : Nat} {m : Machine} {site : Site} {s : Statement}
  {top : Activation} {below : List Activation} {passes : PassCount} {places : List (Int × Int)}

/-! ### Ends of passes -/

/-- A new place settles only if it need not be repeated at all. -/
theorem not_settles_of_new (hrepeats : settings.stabilizationRepeats ≠ 1) {place : Int × Int}
    (hnew : place ∉ places) : settles settings (places ++ [place]) = false := by
  have hcount : (latest settings (places ++ [place])).count place ≤ 1 := by
    have hall : (places ++ [place]).count place = 1 := by
      rw [List.count_append, List.count_eq_zero.mpr hnew, List.count_singleton_self]
    have hlatest := (List.drop_sublist ((places ++ [place]).length -
      max 1 settings.stabilizationWindow) (places ++ [place])).count_le place
    rwa [hall] at hlatest
  rw [settles_append, Bool.and_eq_false_iff, bne_eq_false_iff_eq, decide_eq_false_iff_not]
  omega

/-- A pass that ends at a new place is counted, and the loop goes on or is left. -/
theorem turn_of_new_place (top : Activation) (below : List Activation)
    (hrepeats : settings.stabilizationRepeats ≠ 1) (hend : top.block[top.index]? = none)
    (hkind : top.kind = .loop site passes) (h : m.Remembers settings places)
    (hnew : m.recorder.current.coords ∉ places) :
    ∃ n, m.turn settings top below = .running n ∧ n.recorder = m.recorder ∧
      n.control = ⟨if passes.total.all (m.counter site + 1 < ·) then
          { top with index := 0 } :: below else below,
        Assoc.assign site (m.counter site + 1) m.counters, m.sequences⟩ ∧
      ∃ places', n.Remembers settings places' ∧
        places' ⊆ places ++ [m.recorder.current.coords] := by
  cases passes with
  | short total =>
    refine ⟨(m.passed site).nextPass top below (m.counter site + 1 < total), ?_,
      recorder_nextPass _ _ _ _, control_nextPass _ _ _ _, places, ?_,
      List.subset_append_left _ _⟩
    · simp only [turn, hend, finishBlock, hkind, finishPass]
      rfl
    · cases decide (m.counter site + 1 < total) <;> exact h
  | long total =>
    have hpassed : (m.passed site).Remembers settings places := h
    obtain ⟨hsettled, hremembers⟩ := settled_countPass hpassed
    have hunsettled : ((m.passed site).countPass settings).2 = false :=
      hsettled.trans (not_settles_of_new hrepeats hnew)
    have hcontrol := control_countPass settings (m.passed site)
    refine ⟨((m.passed site).countPass settings).1.nextPass top below
      (total.all (m.counter site + 1 < ·)), ?_,
      (recorder_nextPass _ _ _ _).trans (recorder_countPass _), ?_, _, ?_, List.Subset.refl _⟩
    · rw [turn_of_end hend hkind, hunsettled]
      rfl
    · simp only [control, Control.mk.injEq] at hcontrol
      rw [control_nextPass, hcontrol.2.1, hcontrol.2.2]
      rfl
    · cases total.all (m.counter site + 1 < ·) <;> exact hremembers

/-! ### Loops of one statement -/

/-- A pass of a loop with one statement is about to start after `k` passes, at the places of which
the recorders so far have been. -/
structure AtPass (settings : EngineSettings) (site : Site) (s : Statement) (passes : PassCount)
    (below : List Activation) (recorders : Nat → Recorder) (k : Nat) (m : Machine) : Prop where
  stack : m.stack = ⟨site, [s], 0, .loop site passes⟩ :: below
  counter : m.counter site = k
  recorder : m.recorder = recorders k
  remembers : ∃ places, m.Remembers settings places ∧
    ∀ place ∈ places, ∃ j ≤ k, place = (recorders j).current.coords

/-- Passes of a statement that only concerns the recorder, each of which ends at a new place. -/
structure Roaming (settings : EngineSettings) (site : Site) (s : Statement) (total : Nat)
    (recorders : Nat → Recorder) : Prop where
  repeats : settings.stabilizationRepeats ≠ 1
  pass : ∃ f, s.effect? (0 :: site) = some f ∧ ∀ k < total, (f (recorders k)).capped = false →
    (f (recorders k)).follow = recorders (k + 1)
  places : ∀ j k, j < k → k ≤ total →
    (recorders j).current.coords ≠ (recorders k).current.coords

variable {recorders : Nat → Recorder} {total k : Nat}

theorem uncapped_of_run {m' : Machine} (hm : m.recorder.Following)
    (hreaches : Reaches settings limit m m')
    (hkept : (m.run settings limit).1.recorder.capped = false) : m'.recorder.capped = false := by
  rw [hreaches.run_eq] at hkept
  have hlater : Later m'.recorder (m'.run settings limit).1.recorder :=
    kept_run (kept_later m'.recorder) (following_reaches hreaches hm) (.refl _)
  exact hlater.uncapped hkept

/-- The statement of a pass is executed. -/
theorem AtPass.moved (h : AtPass settings site s passes below recorders k m)
    (hroaming : Roaming settings site s total recorders) (hk : k < total)
    (hm : m.recorder.Following) (hlimits : (m.run settings limit).2.isLimit = false)
    (hkept : (m.run settings limit).1.recorder.capped = false) :
    ∃ moved, m.advance settings limit = .running moved ∧
      moved.stack = ⟨site, [s], 1, .loop site passes⟩ :: below ∧ moved.counter site = k ∧
      moved.recorder = recorders (k + 1) ∧ moved.recent = m.recent := by
  obtain ⟨f, hf, hpass⟩ := hroaming.pass
  obtain ⟨hsteps, hframes⟩ := within_limits h.stack hlimits
  have hadvance : m.advance settings limit = .running
      ((m.fetch ⟨site, [s], 0, .loop site passes⟩ below).mapRecorder fun r => (f r).follow) :=
    (advance_eq_turn h.stack hsteps hframes).trans (turn_of_effect rfl hf)
  have huncapped := uncapped_of_run hm (.single hadvance) hkept
  change (f m.recorder).follow.capped = false at huncapped
  rw [h.recorder, follow_same] at huncapped
  refine ⟨_, hadvance, rfl, h.counter, ?_, rfl⟩
  change (f m.recorder).follow = _
  rw [h.recorder]
  exact hpass k hk huncapped

/-- One pass, in two turns. -/
theorem AtPass.next (h : AtPass settings site s passes below recorders k m)
    (hroaming : Roaming settings site s total recorders)
    (htotal : passes.total = some (total : Int)) (hk : k < total) (hm : m.recorder.Following)
    (hlimits : (m.run settings limit).2.isLimit = false)
    (hkept : (m.run settings limit).1.recorder.capped = false) :
    ∃ n, Reaches settings limit m n ∧ n.recorder = recorders (k + 1) ∧
      (k + 1 < total → AtPass settings site s passes below recorders (k + 1) n) ∧
      (k + 1 = total → n.stack = below) := by
  obtain ⟨moved, hfirst, hstack, hcounter, hrecorder, hrecent⟩ :=
    h.moved hroaming hk hm hlimits hkept
  obtain ⟨places, hremembers, hplaces⟩ := h.remembers
  have hnew : moved.recorder.current.coords ∉ places := by
    intro hold
    obtain ⟨j, hj, hsame⟩ := hplaces _ hold
    rw [hrecorder] at hsame
    exact hroaming.places j (k + 1) (by omega) (by omega) hsame.symm
  rw [run_of_running hfirst] at hlimits
  obtain ⟨hsteps, hframes⟩ := within_limits hstack hlimits
  obtain ⟨n, hturn, hsame, hcontrol, places', hremembers', hsubset⟩ :=
    turn_of_new_place (m := moved) ⟨site, [s], 1, .loop site passes⟩ below hroaming.repeats rfl rfl
      (fun hon => hrecent.trans (hremembers hon)) hnew
  have hsecond : moved.advance settings limit = .running n :=
    (advance_eq_turn hstack hsteps hframes).trans hturn
  rw [htotal, hcounter, Option.all_some] at hcontrol
  have hgone := congrArg Control.stack hcontrol
  refine ⟨n, .head hfirst (.single hsecond), hsame.trans hrecorder, fun hmore => ?_,
    fun hdone => ?_⟩
  · have hagain : ((k : Int) + 1 < total) := by omega
    rw [decide_eq_true hagain, if_pos rfl] at hgone
    refine ⟨hgone, ?_, hsame.trans hrecorder, places', hremembers', fun place hplace => ?_⟩
    · rw [counter_of_assign (congrArg Control.counters hcontrol), if_pos rfl, Int.natCast_add_one]
    · rcases List.mem_append.mp (hsubset hplace) with hold | hlast
      · obtain ⟨j, hj, hat⟩ := hplaces place hold
        exact ⟨j, by omega, hat⟩
      · rw [List.mem_singleton.mp hlast, hrecorder]
        exact ⟨k + 1, Nat.le_refl _, rfl⟩
  · have hover : ¬ ((k : Int) + 1 < total) := by omega
    rwa [decide_eq_false hover, if_neg Bool.false_ne_true] at hgone

/-- All passes of a loop are made. -/
theorem AtPass.exists_end (h : AtPass settings site s passes below recorders k m)
    (hroaming : Roaming settings site s total recorders)
    (htotal : passes.total = some (total : Int)) (hk : k < total) (hm : m.recorder.Following)
    (hlimits : (m.run settings limit).2.isLimit = false)
    (hkept : (m.run settings limit).1.recorder.capped = false) :
    ∃ n, Reaches settings limit m n ∧ n.stack = below ∧ n.recorder = recorders total := by
  induction hleft : total - k generalizing k m with
  | zero => omega
  | succ left ih =>
    obtain ⟨n, hreaches, hrecorder, hmore, hdone⟩ :=
      h.next hroaming htotal hk hm hlimits hkept
    by_cases hlast : k + 1 = total
    · exact ⟨n, hreaches, hdone hlast, hlast ▸ hrecorder⟩
    · have hk' : k + 1 < total := by omega
      rw [hreaches.run_eq] at hlimits hkept
      obtain ⟨n', hreaches', hend⟩ := ih (hmore hk') hk' (following_reaches hreaches hm) hlimits
        hkept (by omega)
      exact ⟨n', hreaches.trans hreaches', hend⟩

/-- A loop is entered before its first pass. -/
theorem exists_first_pass {n : Int64} (hn : 1 ≤ n.toInt) (hstack : m.stack = top :: below)
    (hs : top.block[top.index]? = some (.repeated (.int n) [s])) (hm : m.recorder.Following)
    (hrecent : m.recent = []) (hlimits : (m.run settings limit).2.isLimit = false) :
    ∃ passes first, passes.total = some n.toInt ∧ m.advance settings limit = .running first ∧
      ∀ recorders : Nat → Recorder, recorders 0 = markLoopStart passes m.recorder →
        AtPass settings (top.index :: top.site) s passes
          ({ top with index := top.index + 1 } :: below) recorders 0 first := by
  obtain ⟨hsteps, hframes⟩ := within_limits hstack hlimits
  have htotal : total? (m.fetch top below).recorder.env (.times (.int n)) = some n.toInt :=
    if_neg (Int.not_le.mpr hn)
  have hadvance : m.advance settings limit = ((m.fetch top below).enterLoop settings
      (top.index :: top.site) [s] (some n.toInt)).follow := by
    rw [advance_eq_turn hstack hsteps hframes, turn_of_statement hs, Statement.repeated]
    simp only [dispatch, htotal]
    rfl
  cases henter : (m.fetch top below).enterLoop settings (top.index :: top.site) [s]
      (some n.toInt) with
  | stopped deep why =>
    rw [henter] at hadvance
    rw [run_of_stopped hadvance, why_of_enter henter] at hlimits
    cases hlimits
  | running entered =>
    rw [henter] at hadvance
    have hentered := eq_of_enter henter
    have hfollow : (markLoopStart (passCount settings (some n.toInt)) m.recorder).follow =
        markLoopStart (passCount settings (some n.toInt)) m.recorder :=
      follow_eq ((Quiet.markLoopStart _ _).following hm)
    refine ⟨passCount settings (some n.toInt), _, total_passCount settings _, hadvance,
      fun recorders hstart => ?_⟩
    rw [hentered]
    refine ⟨rfl, ?_, hfollow.trans hstart.symm, [],
      fun _ => hrecent.trans (List.rtake_nil _).symm, fun _ hplace => by cases hplace⟩
    change (Assoc.find? _ (Assoc.assign _ 0 _)).getD 0 = 0
    rw [Assoc.find?_assign_self]
    rfl

end Machine

namespace Performance
open Machine Recorder Movement

variable {p : Performance} {maxSteps : Option Nat} {lead : Block} {last : Machine}
  {s : Statement}

structure Finishes (p : Performance) (maxSteps : Option Nat) (frames : Array Frame) : Prop where
  why : (p.perform maxSteps).why = .completed
  frames : (p.outcome maxSteps).1.recorder.frames = frames

theorem Finishes.timeline {frames : Array Frame} (h : p.Finishes maxSteps frames)
    (hne : frames ≠ #[]) : (p.perform maxSteps).timeline.frames = frames := by
  rw [frames_perform, h.frames, if_neg (by simpa using hne)]

/-- A run that has executed the one statement after the others is completed. -/
theorem finishes_of_done (hlast : p.Prelude maxSteps lead last) {m : Machine}
    (h : (p.reciting (lead ++ [s])).Unlimited maxSteps)
    (hreaches : Reaches p.settings (p.limit maxSteps) (last.prolong [s]) m)
    (hstack : m.stack = [⟨[], lead ++ [s], lead.length + 1, .block⟩]) :
    (p.reciting (lead ++ [s])).Finishes maxSteps m.recorder.frames := by
  have houtcome := (hlast.outcome_eq [s]).trans hreaches.run_eq
  have hlimits := h.why
  rw [houtcome] at hlimits
  obtain ⟨hsteps, hframes⟩ := within_limits hstack hlimits
  have hend : (lead ++ [s])[lead.length + 1]? = none := by simp
  have hrun := houtcome.trans (run_of_last hstack rfl hend hsteps hframes)
  refine ⟨congrArg Prod.snd hrun, ?_⟩
  rw [hrun]
  rfl

/-- After other statements, one that only concerns the recorder is the last one of its run. -/
theorem finishes_of_effect (hlast : p.Prelude maxSteps lead last) {f : Recorder → Recorder}
    (hf : s.effect? [lead.length] = some f) (h : (p.reciting (lead ++ [s])).Unlimited maxSteps) :
    (f last.recorder).capped = false ∧
      (p.reciting (lead ++ [s])).Finishes maxSteps (f last.recorder).follow.frames := by
  have hlimits := h.why
  have hkept := h.kept
  rw [hlast.outcome_eq] at hlimits hkept
  have hopen : (last.prolong [s]).stack = [⟨[], lead ++ [s], lead.length, .block⟩] := by
    rw [hlast.prolonged]
  have hnext : (lead ++ [s])[lead.length]? = some s := List.getElem?_concat_length
  obtain ⟨hsteps, hframes⟩ := within_limits hopen hlimits
  have hadvance : (last.prolong [s]).advance p.settings (p.limit maxSteps) = .running
      (((last.prolong [s]).fetch ⟨[], lead ++ [s], lead.length, .block⟩ []).mapRecorder
        fun r => (f r).follow) :=
    (advance_eq_turn hopen hsteps hframes).trans (turn_of_effect hnext hf)
  have hfollowing : (last.prolong [s]).recorder.Following := hlast.following
  have huncapped := uncapped_of_run hfollowing (.single hadvance) hkept
  change (f last.recorder).follow.capped = false at huncapped
  rw [follow_same] at huncapped
  exact ⟨huncapped, finishes_of_done hlast h (.single hadvance) rfl⟩

/-- After other statements, a loop of one such statement whose passes end at different places is the
last one of its run. -/
theorem finishes_of_passes (hlast : p.Prelude maxSteps lead last) {n : Int64} (hn : 1 ≤ n.toInt)
    (h : (p.reciting (lead ++ [.repeated (.int n) [s]])).Unlimited maxSteps)
    (recorders : PassCount → Nat → Recorder)
    (hstart : ∀ passes, recorders passes 0 = markLoopStart passes last.recorder)
    (hroaming : ∀ passes, Roaming p.settings [lead.length] s n.toInt.toNat (recorders passes)) :
    ∃ passes, (p.reciting (lead ++ [.repeated (.int n) [s]])).Finishes maxSteps
      (recorders passes n.toInt.toNat).frames := by
  have hlimits := h.why
  have hkept := h.kept
  rw [hlast.outcome_eq] at hlimits hkept
  have hopen : (last.prolong [.repeated (.int n) [s]]).stack =
      [⟨[], lead ++ [.repeated (.int n) [s]], lead.length, .block⟩] := by
    rw [hlast.prolonged]
  have hnext : (lead ++ [.repeated (.int n) [s]])[lead.length]? = some (.repeated (.int n) [s]) :=
    List.getElem?_concat_length
  obtain ⟨passes, first, htotal, hadvance, hfirst⟩ :=
    exists_first_pass hn hopen hnext hlast.following hlast.recent hlimits
  have hreaches : Reaches p.settings (p.limit maxSteps) _ first := .single hadvance
  have hfollowing : first.recorder.Following := following_reaches hreaches hlast.following
  have hnat : (n.toInt.toNat : Int) = n.toInt := Int.toNat_of_nonneg (by omega)
  rw [hreaches.run_eq] at hlimits hkept
  obtain ⟨done, hpasses, hstack, hrecorder⟩ := (hfirst _ (hstart passes)).exists_end
    (hroaming passes) (htotal.trans (congrArg some hnat.symm)) (by omega) hfollowing hlimits hkept
  refine ⟨passes, ?_⟩
  rw [← hrecorder]
  exact finishes_of_done hlast h (hreaches.trans hpasses) hstack

/-! ### Movements -/

variable {r : Recorder} {direction : Direction} {n d step hold : Int64}

/-- Passes of a movement with whole steps in its distance end one after the other along its
direction. -/
theorem roaming_of_move {settings : EngineSettings} (hrepeats : settings.stabilizationRepeats ≠ 1)
    {count total : Nat} (hcount : d.toInt / step.toInt = count) (hpos : 0 < count)
    (hr : r.Following) (hstep : 1 ≤ step.toInt) (hhold : 1 ≤ hold.toInt) (hplace : r.current.Fits)
    (hend : (beside r.current direction ((total * count : Nat) * step.toInt)).Fits) (site : Site) :
    Roaming settings site (.move (.paced direction d step hold)) total fun k =>
      walked direction step.toInt hold.toInt.toNat (k * count) r := by
  have hinterval : 0 < hold.toInt.toNat := by omega
  have hfits : ∀ j ≤ total * count, (beside r.current direction (j * step.toInt)).Fits :=
    fun j hj => fits_beside hplace hend (Int.mul_nonneg (Int.natCast_nonneg j) (by omega))
      (Int.mul_le_mul_of_nonneg_right (Int.ofNat_le.mpr hj) (by omega))
  have hcurrent : ∀ j : Nat, (walked direction step.toInt hold.toInt.toNat j r).current =
      beside r.current direction (j * step.toInt) := current_walked hr hinterval direction _
  refine ⟨hrepeats, ⟨_, rfl, fun k hk hkept => ?_⟩, fun j k hjk hk => ?_⟩
  · have hnext : k * count + count ≤ total * count := by
      rw [← Nat.succ_mul]
      exact Nat.mul_le_mul_right count hk
    have hthere : (beside (walked direction step.toInt hold.toInt.toNat (k * count) r).current
        direction (d.toInt / step.toInt * step.toInt)).Fits := by
      rw [hcurrent, beside_beside, hcount, ← Int.add_mul]
      exact hfits _ hnext
    have hdistance : 1 ≤ d.toInt := by
      by_contra hsmall
      have hnone : d.toInt / step.toInt ≤ 0 := Int.ediv_le_of_le_mul (by omega) (by omega)
      omega
    rw [follow_move hstep hdistance hhold (hcurrent _ ▸ hfits _ (by omega)) hthere hkept,
      walked_walked hr hinterval, hcount, Int.toNat_natCast, Nat.succ_mul]
  · have hless : j * count < k * count := Nat.mul_lt_mul_of_pos_right hjk hpos
    have hfar := Int.mul_lt_mul_of_pos_right (Int.ofNat_lt.mpr hless)
      (Int.lt_of_lt_of_le Int.zero_lt_one hstep)
    rw [hcurrent, hcurrent, ne_eq, coords_beside_inj]
    exact Int.ne_of_lt hfar

/-- A repeated movement walks all the whole steps of its passes. -/
theorem repeated_walks {count total : Nat} (hlast : p.Prelude maxSteps lead last)
    (hn : n.toInt = total) (htotal : 0 < total) (hcount : d.toInt / step.toInt = count)
    (hpos : 0 < count) (hstep : 1 ≤ step.toInt) (hhold : 1 ≤ hold.toInt)
    (hrepeats : p.settings.stabilizationRepeats ≠ 1) (hplace : last.recorder.current.Fits)
    (hend : (beside last.recorder.current direction ((total * count : Nat) * step.toInt)).Fits)
    (h : (p.reciting (lead ++
      [.repeated (.int n) [.move (.paced direction d step hold)]])).Unlimited maxSteps) :
    (p.reciting (lead ++ [.repeated (.int n) [.move (.paced direction d step hold)]])).Finishes
      maxSteps (walked direction step.toInt hold.toInt.toNat (total * count)
        last.recorder).frames := by
  have hquiet : ∀ passes, Quiet last.recorder (markLoopStart passes last.recorder) :=
    fun passes => .markLoopStart passes last.recorder
  have hfollowing := fun passes => (hquiet passes).following hlast.following
  have hcurrent : ∀ passes, (markLoopStart passes last.recorder).current = last.recorder.current :=
    fun passes => by rw [current, (hquiet passes).env, current]
  have htoNat : n.toInt.toNat = total := by rw [hn, Int.toNat_natCast]
  obtain ⟨passes, hfinishes⟩ := finishes_of_passes hlast (by omega) h
    (fun passes k => walked direction step.toInt hold.toInt.toNat (k * count)
      (markLoopStart passes last.recorder))
    (fun passes => by rw [Nat.zero_mul, walked_zero (hfollowing passes)])
    fun passes => htoNat ▸ roaming_of_move hrepeats hcount hpos (hfollowing passes) hstep hhold
      ((hcurrent passes).symm ▸ hplace) ((hcurrent passes).symm ▸ hend) _
  rwa [htoNat, frames_walked_markLoopStart] at hfinishes

/-- One movement over whole steps walks all of them. -/
theorem longer_walks {count : Nat} (hlast : p.Prelude maxSteps lead last)
    (hd : d.toInt = count * step.toInt) (hpos : 0 < count) (hstep : 1 ≤ step.toInt)
    (hhold : 1 ≤ hold.toInt) (hplace : last.recorder.current.Fits)
    (hend : (beside last.recorder.current direction (count * step.toInt)).Fits)
    (h : (p.reciting (lead ++ [.move (.paced direction d step hold)])).Unlimited maxSteps) :
    (p.reciting (lead ++ [.move (.paced direction d step hold)])).Finishes maxSteps
      (walked direction step.toInt hold.toInt.toNat count last.recorder).frames := by
  obtain ⟨hkept, hfinishes⟩ := finishes_of_effect hlast rfl h
  have hcount : d.toInt / step.toInt = count := by
    rw [hd, Int.mul_ediv_cancel _ (by omega)]
  have hdistance : 1 ≤ d.toInt := by
    have hmany : (1 : Int) * step.toInt ≤ count * step.toInt :=
      Int.mul_le_mul_of_nonneg_right (by omega) (by omega)
    omega
  have hmove := follow_move hstep hdistance hhold hplace (hcount ▸ hend) hkept
  rw [hcount, Int.toNat_natCast] at hmove
  rwa [hmove] at hfinishes

/-- A loop that repeats one movement appends the frames of one longer movement, over all the whole
steps of its passes. Whether the loop is unrolled or stepped through, it makes all its passes. -/
theorem repeated_move_eq_longer_move (p : Performance) (maxSteps : Option Nat) {lead : Block}
    (hlead : (p.reciting lead).program.goesForward = true) (direction : Direction)
    {n d step hold : Int64} (hn : 1 ≤ n.toInt) (hstep : 1 ≤ step.toInt)
    (hdistance : step.toInt ≤ d.toInt) (hhold : 1 ≤ hold.toInt)
    (hrepeats : p.settings.stabilizationRepeats ≠ 1) :
    let r := ((p.reciting lead).outcome maxSteps).1.recorder
    let count := n.toInt * (d.toInt / step.toInt)
    let repeated := p.reciting
      (lead ++ [.repeated (.int n) [.move (.paced direction d step hold)]])
    let longer := p.reciting
      (lead ++ [.move (.paced direction (.ofInt (count * step.toInt)) step hold)])
    repeated.Unlimited maxSteps → longer.Unlimited maxSteps →
      r.current.Fits → (beside r.current direction (count * step.toInt)).Fits →
      (repeated.perform maxSteps).why = .completed ∧ (longer.perform maxSteps).why = .completed ∧
      ∃ more : Array Frame,
        (repeated.perform maxSteps).timeline.frames = r.frames ++ more ∧
        (longer.perform maxSteps).timeline.frames = r.frames ++ more ∧
        (p.settings.smoothing = false → (more.size : Int) = count * hold.toInt ∧
          more = (held hold.toInt.toNat
            (wholeSteps r.current direction step.toInt count.toNat)).toArray) := by
  intro r count repeated longer hrepeated hlonger hplace hend
  obtain ⟨last, hlast⟩ := exists_prelude hlead hrepeated
  have hr : r = last.recorder := hlast.recorder
  obtain ⟨steps, hsteps⟩ : ∃ steps : Nat, d.toInt / step.toInt = steps :=
    Int.eq_ofNat_of_zero_le (Int.ediv_nonneg (by omega) (by omega))
  obtain ⟨total, htotal⟩ : ∃ total : Nat, n.toInt = total := Int.eq_ofNat_of_zero_le (by omega)
  have hpos : 0 < steps := by
    have hone : 1 ≤ d.toInt / step.toInt := Int.le_ediv_of_mul_le (by omega) (by omega)
    omega
  have hcount : count = (total * steps : Nat) := by
    rw [Int.natCast_mul, ← hsteps, ← htotal]
  have hmany : 0 < total * steps := Nat.mul_pos (by omega) hpos
  rw [hr, hcount] at hend
  rw [hr] at hplace ⊢
  have hwhole : (Int64.ofInt (count * step.toInt)).toInt = (total * steps : Nat) * step.toInt := by
    rw [hcount]
    exact Int64.toInt_ofInt_of_le (amount_of_fits hplace hend).1 (amount_of_fits hplace hend).2
  have hall := repeated_walks hlast htotal (by omega) hsteps hpos hstep hhold hrepeats hplace hend
    hrepeated
  have hall' := longer_walks hlast hwhole hmany hstep hhold hplace hend hlonger
  have hinterval : 0 < hold.toInt.toNat := by omega
  obtain ⟨more, hmore, hne, hplain⟩ :=
    exists_frames_walked hlast.segment hinterval hmany direction step.toInt
  rw [hmore] at hall hall'
  refine ⟨hall.why, hall'.why, more, hall.timeline hne, hall'.timeline hne, fun hoff => ?_⟩
  obtain ⟨hsize, hwalk⟩ := hplain (hlast.smoothing.trans hoff)
  rw [hsize, hcount, Int.natCast_mul, Int.toNat_of_nonneg (by omega), Int.toNat_natCast]
  exact ⟨rfl, hwalk⟩

/-- Five pixels in steps of two, in one pass more than can be unrolled, after a segment in which a
sequence with a loop is defined. -/
theorem repeated_move_eq_longer_move_eleven :
    let p := playing []
    let lead : Block := [
      .segment "setup" [.define "spin" [.repeated (.int 3) []], .move (.along .down (.int 2))]]
    let repeated := p.reciting
      (lead ++ [.repeated (.int 11) [.move (.paced .right 5 2 1)]])
    let longer := p.reciting (lead ++ [.move (.paced .right (.ofInt (11 * (5 / 2) * 2)) 2 1)])
    (p.reciting lead).program.goesForward = true ∧ p.settings.loopUnrollLimit < 11 ∧
      repeated.Unlimited none ∧ longer.Unlimited none ∧
      (repeated.perform none).timeline.frames = (longer.perform none).timeline.frames ∧
      (repeated.perform none).timeline.frames.size = 24 := by
  intro p lead repeated longer
  have hlead : (p.reciting lead).program.goesForward = true := by decide
  have hrepeated : repeated.Unlimited none := ⟨by cbv, by cbv⟩
  have hlonger : longer.Unlimited none := ⟨by cbv, by cbv⟩
  have hplace : ((p.reciting lead).outcome none).1.recorder.current = .plain 0 2 := by cbv
  obtain ⟨-, -, more, hframes, hframes', -⟩ :=
    repeated_move_eq_longer_move p none hlead .right (n := 11) (d := 5) (by decide) (by decide)
      (by decide) (by decide) (by decide) hrepeated hlonger
      (by rw [hplace]; exact ⟨by decide, by decide⟩) (by rw [hplace]; exact ⟨by decide, by decide⟩)
  exact ⟨hlead, by decide, hrepeated, hlonger, hframes.trans hframes'.symm, by cbv⟩

end Performance
end Choreography
