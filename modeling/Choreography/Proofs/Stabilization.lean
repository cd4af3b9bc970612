import Choreography.Proofs.Limits
import Choreography.Proofs.Occurrences
import Mathlib.Data.List.DropRight

/-! # Stabilization

A run remembers where the passes of its long loops have ended, and it stops once the last of these
places is often enough among the latest ones. It does not ask whether the loop has an end, so passes
of a loop with a count settle like those of a loop without. Nothing else in a run depends on the
places that it remembers. -/
namespace Choreography

def EngineSettings.unstabilized (settings : EngineSettings) : EngineSettings :=
  { settings with stabilizationRepeats := 0 }

def Statement.isEndless : Statement → Bool
  | .loop .infinite _ => true
  | _ => false

def Program.loopsEnd (p : Program) : Bool := p.places.all fun place => !place.statement.isEndless

def Machine.withRecent (m : Machine) (recent : List (Int × Int)) : Machine :=
  { m with recent := recent }

def Outcome.withRecent (recent : List (Int × Int)) : Outcome → Outcome
  | .running m => .running (m.withRecent recent)
  | .stopped m why => .stopped (m.withRecent recent) why

namespace Machine
open Recorder

variable {settings : EngineSettings} {limit : Nat} {m m' : Machine} {site : Site} {s : Statement}
  {top : Activation} {below : List Activation} {places : List (Int × Int)}

/-! ### Remembered places -/

/-- The latest of some places, as many as a run remembers. -/
def latest (settings : EngineSettings) (places : List (Int × Int)) : List (Int × Int) :=
  places.rtake (max 1 settings.stabilizationWindow)

def settles (settings : EngineSettings) (places : List (Int × Int)) : Bool :=
  settings.stabilizationRepeats != 0 &&
    places.getLast?.any fun place =>
      settings.stabilizationRepeats ≤ (latest settings places).count place

theorem remember_latest (settings : EngineSettings) (places : List (Int × Int))
    (place : Int × Int) :
    remember settings (latest settings places) place = latest settings (places ++ [place]) := by
  have hroom : 1 ≤ max 1 settings.stabilizationWindow := Nat.le_max_left _ _
  unfold remember latest List.rtake
  generalize max 1 settings.stabilizationWindow = room at hroom ⊢
  rw [List.length_drop, List.length_append, List.length_singleton]
  by_cases hfull : room ≤ places.length
  · have hleft : room ≤ places.length - (places.length - room) := by omega
    rw [if_pos hleft, List.drop_drop, List.drop_append_of_le_length (by omega)]
    congr 2
    omega
  · have hleft : ¬ room ≤ places.length - (places.length - room) := by omega
    have hnone : places.length - room = 0 := by omega
    have hnone' : places.length + 1 - room = 0 := by omega
    rw [if_neg hleft, hnone, hnone', List.drop_zero, List.drop_zero]

/-- A machine remembers the latest of the places where passes have ended, if it needs any. -/
def Remembers (settings : EngineSettings) (places : List (Int × Int)) (m : Machine) : Prop :=
  settings.stabilizationRepeats ≠ 0 → m.recent = latest settings places

theorem settles_append (settings : EngineSettings) (places : List (Int × Int))
    (place : Int × Int) :
    settles settings (places ++ [place]) =
      (settings.stabilizationRepeats != 0 &&
        decide (settings.stabilizationRepeats ≤
          (latest settings (places ++ [place])).count place)) := by
  simp [settles]

theorem settled_countPass (h : m.Remembers settings places) :
    (m.countPass settings).2 = settles settings (places ++ [m.recorder.current.coords]) ∧
      (m.countPass settings).1.Remembers settings (places ++ [m.recorder.current.coords]) := by
  rw [settles_append]
  by_cases hoff : settings.stabilizationRepeats = 0
  · refine ⟨by simp [countPass, hoff], fun hon => absurd hoff hon⟩
  · have hrecent := remember_latest settings places m.recorder.current.coords
    rw [← h hoff] at hrecent
    simp only [countPass, if_neg hoff, hrecent]
    exact ⟨by simp [hasSettled, hoff], fun _ => rfl⟩

/-! ### Passes of long loops -/

/-- The pass of a long loop that ends with the next turn: how many passes the loop is to make, if it
has an end, and the place where this one ends. -/
def longPass? (m : Machine) : Option (Option Int × Int × Int) :=
  match m.stack with
  | [] => none
  | top :: _ =>
      match top.block[top.index]?, top.kind with
      | none, .loop _ (.long total) => some (total, m.recorder.current.coords)
      | _, _ => none

def passEnds (turns : List Machine) : List (Int × Int) :=
  turns.filterMap fun m => m.longPass?.map Prod.snd

theorem mapRecorder_withRecent (m : Machine) (recent : List (Int × Int))
    (f : Recorder → Recorder) :
    (m.withRecent recent).mapRecorder f = (m.mapRecorder f).withRecent recent := rfl

theorem enter_withRecent (settings : EngineSettings) (m : Machine) (recent : List (Int × Int))
    (a : Activation) :
    (m.withRecent recent).enter settings a = (m.enter settings a).withRecent recent := by
  have hstack : (m.withRecent recent).stack = m.stack := rfl
  unfold enter
  rw [hstack]
  split <;> rfl

theorem enterLoop_withRecent (settings : EngineSettings) (m : Machine) (recent : List (Int × Int))
    (site : Site) (body : Block) (total : Option Int) :
    (m.withRecent recent).enterLoop settings site body total =
      (m.enterLoop settings site body total).withRecent recent :=
  enter_withRecent settings (mapRecorder { m with counters := Assoc.assign site 0 m.counters }
    (markLoopStart (passCount settings total))) recent _

theorem nextPass_withRecent (m : Machine) (recent : List (Int × Int)) (top : Activation)
    (below : List Activation) (again : Bool) :
    (m.withRecent recent).nextPass top below again =
      (m.nextPass top below again).withRecent recent := by
  cases again <;> rfl

/-- Statements have nothing to do with the places that are remembered. -/
theorem dispatch_withRecent (settings : EngineSettings) (m : Machine) (recent : List (Int × Int))
    (site : Site) (s : Statement) :
    (m.withRecent recent).dispatch settings site s =
      (m.dispatch settings site s).withRecent recent := by
  have hrecorder : (m.withRecent recent).recorder = m.recorder := rfl
  have hstack : (m.withRecent recent).stack = m.stack := rfl
  have hsequences : (m.withRecent recent).sequences = m.sequences := rfl
  cases s with
  | loop count body =>
    simp only [dispatch, hrecorder, mapRecorder_withRecent]
    split
    · rfl
    · exact enterLoop_withRecent settings _ recent _ _ _
  | conditional branches otherwise =>
    simp only [dispatch, hrecorder, mapRecorder_withRecent]
    split
    · rfl
    · exact enter_withRecent settings _ recent _
  | breakLoop =>
    simp only [dispatch, hstack]
    split <;> rfl
  | continueLoop =>
    simp only [dispatch, hstack]
    split <;> rfl
  | call name =>
    simp only [dispatch, hsequences]
    split
    · exact enter_withRecent settings m recent _
    · rfl
  | segment name body =>
    simp only [dispatch, hrecorder, enter_withRecent]
    generalize m.enter settings _ = out
    cases out <;> rfl
  | _ => rfl

theorem recent_dispatch (settings : EngineSettings) (m : Machine) (site : Site) (s : Statement) :
    (m.dispatch settings site s).machine.recent = m.recent := by
  have hsame : m.dispatch settings site s = (m.dispatch settings site s).withRecent m.recent :=
    dispatch_withRecent settings m m.recent site s
  rw [hsame]
  cases m.dispatch settings site s <;> rfl

def passed (m : Machine) (site : Site) : Machine :=
  { m with counters := Assoc.assign site (m.counter site + 1) m.counters }

theorem turn_of_end {total : Option Int} (hend : top.block[top.index]? = none)
    (hkind : top.kind = .loop site (.long total)) :
    m.turn settings top below =
      if ((m.passed site).countPass settings).2 then
        .stopped ((m.passed site).countPass settings).1 .stabilized
      else .running (((m.passed site).countPass settings).1.nextPass top below
        (total.all (m.counter site + 1 < ·))) := by
  simp only [turn, hend, finishBlock, hkind, finishPass]
  rfl

/-- A turn that ends a pass of a long loop stops the run if its place settles, and remembers it if
not. -/
theorem turn_of_longPass {total : Option Int} {place : Int × Int} (hstack : m.stack = top :: below)
    (hpass : m.longPass? = some (total, place)) (h : m.Remembers settings places) :
    (settles settings (places ++ [place]) = true ∧
        ∃ n, m.turn settings top below = .stopped n .stabilized) ∨
      (settles settings (places ++ [place]) = false ∧
        ∃ n, m.turn settings top below = .running n ∧
          n.Remembers settings (places ++ [place])) := by
  simp only [longPass?, hstack] at hpass
  split at hpass
  · rename_i site total' hend hkind
    cases hpass
    have hpassed : (m.passed site).Remembers settings places := h
    obtain ⟨hsettled, hremembers⟩ := settled_countPass hpassed
    have hplace : (m.passed site).recorder.current.coords = m.recorder.current.coords := rfl
    rw [hplace] at hsettled hremembers
    rw [turn_of_end hend hkind, hsettled]
    cases settles settings (places ++ [m.recorder.current.coords]) with
    | true => exact .inl ⟨rfl, _, rfl⟩
    | false =>
      refine .inr ⟨rfl, _, rfl, ?_⟩
      cases total.all (m.counter site + 1 < ·) <;> exact hremembers
  · cases hpass

/-- Any other turn does not remember a place and does not stop the run as stabilized. -/
theorem turn_of_not_longPass (hstack : m.stack = top :: below) (hpass : m.longPass? = none) :
    (m.turn settings top below).machine.recent = m.recent ∧
      ∀ n, m.turn settings top below ≠ .stopped n .stabilized := by
  simp only [longPass?, hstack] at hpass
  cases hs : top.block[top.index]? with
  | some s =>
    have hrecent := recent_dispatch settings (m.fetch top below) (top.index :: top.site) s
    rw [turn_of_statement hs]
    cases hd : (m.fetch top below).dispatch settings (top.index :: top.site) s with
    | running n =>
      rw [hd] at hrecent
      exact ⟨hrecent, fun _ hstop => by cases hstop⟩
    | stopped n why =>
      rw [hd] at hrecent
      refine ⟨hrecent, fun n' hstop => ?_⟩
      cases hstop
      cases why_of_dispatch hd
  | none =>
    simp only [turn, hs, finishBlock]
    cases hkind : top.kind with
    | block => exact ⟨rfl, fun _ hstop => by cases hstop⟩
    | segment name start => exact ⟨rfl, fun _ hstop => by cases hstop⟩
    | loop site passes =>
      cases passes with
      | short total =>
        refine ⟨?_, fun _ hstop => by cases hstop⟩
        simp only [finishPass, nextPass]
        split <;> rfl
      | long total =>
        simp only [hs, hkind] at hpass
        cases hpass

theorem steps_of_stabilized (h : m.turn settings top below = .stopped m' .stabilized) :
    m'.steps = m.steps + 1 := by
  cases hs : top.block[top.index]? with
  | some s =>
    simp only [turn, hs] at h
    split at h
    · cases h
    · rename_i hd
      cases h
      cases why_of_dispatch hd
  | none =>
    simp only [turn, hs, finishBlock] at h
    split at h
    · rename_i site passes _
      cases passes with
      | short total => cases h
      | long total =>
        simp only [finishPass] at h
        split at h
        · cases h
          exact steps_countPass settings _
        · cases h
    · cases h

/-- Before a turn a run does not stop as stabilized. -/
theorem not_stabilized_before : m.advance settings limit ≠ .stopped m .stabilized := by
  intro h
  unfold advance at h
  split at h
  · cases h
  · split at h
    · cases h
    · split at h
      · cases h
      · have hsteps := steps_of_stabilized h
        omega

/-- A run stops as stabilized if and only if the place of the last pass of a long loop settles. -/
theorem stabilized_iff_settles {turns : List Machine} {final : Machine × Stop}
    (h : Turns settings limit m turns final) (hm : m.Remembers settings places)
    (hnot : settles settings places = false) :
    final.2 = .stabilized ↔ settles settings (places ++ passEnds turns) = true := by
  induction h generalizing places with
  | @before m why h =>
    have hwhy : why ≠ .stabilized := by
      rintro rfl
      exact not_stabilized_before h
    simp [passEnds, hwhy, hnot]
  | @amid m m' top below why hstack hturn h =>
    rw [hturn] at h
    cases hpass : m.longPass? with
    | none =>
      have hwhy : why ≠ .stabilized := by
        rintro rfl
        exact (turn_of_not_longPass hstack hpass).2 m' h
      simp [passEnds, hpass, hwhy, hnot]
    | some pass =>
      rcases turn_of_longPass hstack hpass hm with ⟨hsettled, n, hn⟩ | ⟨-, n, hn, -⟩
      · rw [hn] at h
        cases h
        simp [passEnds, hpass, hsettled]
      · rw [hn] at h
        cases h
  | @onward m next ms final hadvance _ ih =>
    obtain ⟨top, below, hstack, -, -, hturn⟩ := turn_of_advance hadvance
    cases hpass : m.longPass? with
    | none =>
      have hrecent : (m.turn settings top below).machine.recent = m.recent :=
        (turn_of_not_longPass hstack hpass).1
      rw [hturn] at hrecent
      rw [ih (fun hon => hrecent.trans (hm hon)) hnot]
      simp [passEnds, hpass]
    | some pass =>
      rcases turn_of_longPass hstack hpass hm with ⟨-, n, hn⟩ | ⟨hunsettled, n, hn, hremembers⟩
      · rw [hn] at hturn
        cases hturn
      · rw [hn] at hturn
        cases hturn
        rw [ih hremembers hunsettled]
        simp [passEnds, hpass]

/-! ### Runs without stabilization -/

theorem dispatch_unstabilized (settings : EngineSettings) (m : Machine) (site : Site)
    (s : Statement) :
    m.dispatch settings.unstabilized site s = m.dispatch settings site s := by
  cases s <;> rfl

theorem countPass_unstabilized (settings : EngineSettings) (m : Machine)
    (recent : List (Int × Int)) :
    (m.withRecent recent).countPass settings.unstabilized =
      ((m.countPass settings).1.withRecent recent, false) := by
  have hoff : settings.unstabilized.stabilizationRepeats = 0 := rfl
  simp only [countPass, hoff, if_true]
  split <;> rfl

theorem turn_unstabilized (recent : List (Int × Int))
    (hnot : ∀ n, m.turn settings top below ≠ .stopped n .stabilized) :
    (m.withRecent recent).turn settings.unstabilized top below =
      (m.turn settings top below).withRecent recent := by
  cases hs : top.block[top.index]? with
  | some s =>
    have hfetch : (m.withRecent recent).fetch top below = (m.fetch top below).withRecent recent :=
      rfl
    rw [turn_of_statement hs, turn_of_statement hs, hfetch, dispatch_unstabilized,
      dispatch_withRecent]
    cases (m.fetch top below).dispatch settings (top.index :: top.site) s <;> rfl
  | none =>
    cases hkind : top.kind with
    | block =>
      simp only [turn, hs, finishBlock, hkind]
      rfl
    | segment name start =>
      simp only [turn, hs, finishBlock, hkind]
      rfl
    | loop site passes =>
      have hpassed : (m.withRecent recent).passed site = (m.passed site).withRecent recent := rfl
      have hcounter : (m.withRecent recent).counter site = m.counter site := rfl
      cases passes with
      | short total =>
        simp only [turn, hs, finishBlock, hkind, finishPass]
        exact congrArg Outcome.running (nextPass_withRecent (m.passed site) recent top below _)
      | long total =>
        rw [turn_of_end hs hkind] at hnot
        rw [turn_of_end hs hkind, turn_of_end hs hkind, hpassed, countPass_unstabilized, hcounter]
        cases hsettled : ((m.passed site).countPass settings).2 with
        | true => exact absurd (if_pos hsettled) (hnot _)
        | false =>
          exact congrArg Outcome.running (nextPass_withRecent _ recent top below _)

theorem advance_unstabilized (recent : List (Int × Int))
    (hnot : ∀ n, m.advance settings limit ≠ .stopped n .stabilized) :
    (m.withRecent recent).advance settings.unstabilized limit =
      (m.advance settings limit).withRecent recent := by
  have hstack : (m.withRecent recent).stack = m.stack := rfl
  have hsteps : (m.withRecent recent).steps = m.steps := rfl
  have hrecorder : (m.withRecent recent).recorder = m.recorder := rfl
  unfold advance at hnot ⊢
  rw [hstack, hsteps, hrecorder]
  generalize m.stack = stack at hnot ⊢
  cases stack with
  | nil => rfl
  | cons top below =>
    simp only at hnot ⊢
    split
    · rfl
    · rename_i hwithin
      split
      · rfl
      · rename_i hroom
        rw [if_neg hwithin, if_neg hroom] at hnot
        exact turn_unstabilized recent hnot

/-- A run that does not stop as stabilized is the same without stabilization. -/
theorem run_unstabilized (recent : List (Int × Int))
    (h : (m.run settings limit).2 ≠ .stabilized) :
    (m.withRecent recent).run settings.unstabilized limit =
      ((m.run settings limit).1.withRecent recent, (m.run settings limit).2) := by
  induction m using run.induct settings limit with
  | case1 m m' why hstop =>
    rw [run_of_stopped hstop] at h ⊢
    have hsame : (m.withRecent recent).advance settings.unstabilized limit =
        (m.advance settings limit).withRecent recent := by
      refine advance_unstabilized recent fun n hn => ?_
      rw [hstop] at hn
      cases hn
      exact h rfl
    rw [hstop] at hsame
    exact run_of_stopped hsame
  | case2 m next hstep ih =>
    rw [run_of_running hstep] at h ⊢
    have hsame : (m.withRecent recent).advance settings.unstabilized limit =
        (m.advance settings limit).withRecent recent := by
      refine advance_unstabilized recent fun n hn => ?_
      rw [hstep] at hn
      cases hn
    rw [hstep] at hsame
    rw [run_of_running hsame]
    exact ih h

/-! ### Programs whose loops all have an end -/

/-- Every open loop that is long has an end, beyond the limit for unrolling. -/
def LongLoopsEnd (settings : EngineSettings) (stack : List Activation) : Prop :=
  ∀ a ∈ stack, ∀ site total, a.kind = .loop site (.long total) →
    ∃ n, total = some n ∧ settings.loopUnrollLimit < n

theorem longLoopsEnd_executed {c : Control} (h : LongLoopsEnd settings m.stack)
    (hs : s.isEndless = false) (hexecuted : Executed settings m site s c) :
    LongLoopsEnd settings c.stack := by
  cases hexecuted with
  | done => exact h
  | defined => exact h
  | entered _ hkind =>
    refine List.forall_mem_cons.mpr ⟨fun site total hlong => ?_, h⟩
    simp [Activation.isLoop, hlong] at hkind
  | @looped count body total hloop htotal =>
    refine List.forall_mem_cons.mpr ⟨fun site' total' hlong => ?_, h⟩
    cases count with
    | infinite =>
      rw [hloop] at hs
      cases hs
    | times e =>
      simp only [total?] at htotal
      split at htotal
      · cases htotal
      · cases htotal
        simp only [passCount] at hlong
        split at hlong
        · cases hlong
        · cases hlong
          exact ⟨_, rfl, by omega⟩
  | unwound hresume =>
    intro a ha site total hlong
    obtain ⟨b, hb, -, hkind⟩ := mem_unwindTo hresume ha
    exact h b hb site total (hkind ▸ hlong)

theorem longLoopsEnd_advance (h : LongLoopsEnd settings m.stack)
    (hnext : m.Next fun s => s.isEndless = false)
    (hadvance : m.advance settings limit = .running m') : LongLoopsEnd settings m'.stack := by
  obtain ⟨top, below, hstack, hturned⟩ := turned_of_advance hadvance
  rw [hstack] at h
  obtain ⟨htop, hbelow⟩ := List.forall_mem_cons.mp h
  change LongLoopsEnd settings m'.control.stack
  generalize m'.control = c at hturned
  cases hturned with
  | @executed s c hs hexecuted =>
    have hfetched : LongLoopsEnd settings (m.fetch top below).stack :=
      List.forall_mem_cons.mpr ⟨htop, hbelow⟩
    exact longLoopsEnd_executed hfetched (hnext top below s hstack hs) hexecuted
  | left => exact hbelow
  | @passed _ _ again =>
    cases again with
    | false => exact hbelow
    | true => exact List.forall_mem_cons.mpr ⟨htop, hbelow⟩

end Machine

namespace Performance
open Machine

variable {p : Performance} {maxSteps : Option Nat}

def unstabilized (p : Performance) : Performance := { p with settings := p.settings.unstabilized }

def Unaffected (p : Performance) (maxSteps : Option Nat) : Prop :=
  (p.perform maxSteps).why ≠ .stabilized ∧ p.perform maxSteps = p.unstabilized.perform maxSteps

theorem perform_unstabilized (h : (p.perform maxSteps).why ≠ .stabilized) :
    p.unstabilized.perform maxSteps = p.perform maxSteps := by
  have hrun : p.unstabilized.outcome maxSteps =
      ((p.outcome maxSteps).1.withRecent [], (p.outcome maxSteps).2) :=
    run_unstabilized (m := .start p.program p.recorder) [] h
  unfold perform
  rw [hrun]
  rfl

theorem longLoopsEnd_reaches (hp : p.program.loopsEnd = true) {m : Machine}
    (hreaches : Reaches p.settings (p.limit maxSteps) (.start p.program p.recorder) m) :
    LongLoopsEnd p.settings m.stack := by
  induction hreaches with
  | refl =>
    intro a ha site total hlong
    cases List.mem_singleton.mp ha
    cases hlong
  | @tail k next hk hadvance ih =>
    have hnext : k.Next fun s => s.isEndless = false :=
      (charted_reaches (charted_start p.program p.recorder) hk).next fun place hplace => by
        simpa using List.all_eq_true.mp hp place hplace
    exact longLoopsEnd_advance ih hnext hadvance

/-- Where all loops have an end, stabilization changes what a run gives if and only if the place of
a pass of a loop beyond the limit for unrolling is often enough among the latest ones. -/
theorem unaffected_iff_of_loopsEnd (p : Performance) (maxSteps : Option Nat)
    (hp : p.program.loopsEnd = true) :
    ∃ turns, Turns p.settings (p.limit maxSteps) (.start p.program p.recorder) turns
        (p.outcome maxSteps) ∧
      (∀ m ∈ turns, ∀ total place, m.longPass? = some (total, place) →
        ∃ n, total = some n ∧ p.settings.loopUnrollLimit < n) ∧
      (p.Unaffected maxSteps ↔ settles p.settings (passEnds turns) = false) := by
  obtain ⟨turns, hturns⟩ :=
    exists_turns p.settings (p.limit maxSteps) (.start p.program p.recorder)
  refine ⟨turns, hturns, fun m hm total place hpass => ?_, ?_⟩
  · have hends := longLoopsEnd_reaches hp (reaches_of_mem_turns hturns hm)
    unfold longPass? at hpass
    split at hpass
    · cases hpass
    · rename_i top below hstack
      split at hpass
      · rename_i site total' _ hkind
        cases hpass
        exact hends top (by rw [hstack]; exact List.mem_cons_self) site _ hkind
      · cases hpass
  · have hstabilized : (p.perform maxSteps).why = .stabilized ↔
        settles p.settings ([] ++ passEnds turns) = true :=
      stabilized_iff_settles hturns (fun _ => (List.rtake_nil _).symm) (by simp [settles])
    rw [List.nil_append] at hstabilized
    have hunaffected : p.Unaffected maxSteps ↔ (p.perform maxSteps).why ≠ .stabilized :=
      ⟨fun h => h.1, fun h => ⟨h, (perform_unstabilized h).symm⟩⟩
    rw [hunaffected, Ne, hstabilized, Bool.not_eq_true]

def stroll : Performance := playing [.repeated (.int 11) [.move (.along .right .one)]]

theorem unaffected_stroll_iff :
    stroll.program.loopsEnd = true ∧
      ∃ turns, Turns stroll.settings (stroll.limit none) (.start stroll.program stroll.recorder)
          turns (stroll.outcome none) ∧
        (∀ m ∈ turns, ∀ total place, m.longPass? = some (total, place) →
          ∃ n, total = some n ∧ stroll.settings.loopUnrollLimit < n) ∧
        (stroll.Unaffected none ↔ settles stroll.settings (passEnds turns) = false) := by
  have hends : stroll.program.loopsEnd = true := by decide
  exact ⟨hends, unaffected_iff_of_loopsEnd stroll none hends⟩

/-- Turns around on the spot some times, and then goes on by one pixel. -/
def hesitant (passes : Int64) : Performance :=
  playing [.repeated (.int passes) [], .move (.along .right .one)]

/-- One pass more than can be unrolled, and the run is over before its last step. -/
theorem hesitant_stabilizes :
    (hesitant 11).program.loopsEnd = true ∧ ((hesitant 11).perform none).why = .stabilized ∧
      ((hesitant 11).perform none).timeline.frames.map Frame.coords = #[(0, 0)] ∧
      ((hesitant 10).perform none).why = .completed ∧
      ((hesitant 10).perform none).timeline.frames.map Frame.coords = #[(1, 0)] :=
  ⟨by decide, by cbv, by cbv, by cbv, by cbv⟩

end Performance
end Choreography
