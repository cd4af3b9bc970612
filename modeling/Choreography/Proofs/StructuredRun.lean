import Choreography.Proofs.Continuation
import Mathlib

/-! # Runs follow the structure of the program

Every turn goes from the continuation that a machine stands for to a later part of it, so a
completed run ends where the structural semantics does. -/
namespace Choreography
namespace Machine
open Recorder

variable {settings : EngineSettings} {p : Program}

/-! ### Statements -/

theorem activeSegment_of_effect {site : Site} {s : Statement} {f : Recorder → Recorder}
    (h : s.effect? site = some f) (r : Recorder) : (f r).activeSegment = r.activeSegment := by
  rcases Statement.composed_of_effect h with ⟨event, -, rfl⟩ | hf
  · unfold Movement.sync
    rw [(Adds.emit _ _).same]
    rfl
  · refine hf.invariant (P := fun r' => r'.activeSegment = r.activeSegment) ?_ rfl
    intro a r' hr'
    cases a with
    | emit f =>
      rw [Act.perform, (Adds.emit _ _).same]
      exact hr'
    | endCycle =>
      simp only [Act.perform, setImplicitPeriod]
      split <;> exact hr'
    | _ => exact hr'

variable {m : Machine} {top : Activation} {below : List Activation} {s : Statement}

/-- A statement that neither enters nor leaves a block. -/
theorem refines_of_step (hm : WellNested p m) (hstack : m.stack = top :: below)
    (hs : top.block[top.index]? = some s) {m' : Machine}
    (hsame : m'.stack = { top with index := top.index + 1 } :: below)
    (hcounters : m'.counters = m.counters)
    (hdefined : ∀ name q, m'.sequences.find? name = some q →
      p.blockAt q.site = some (some name, q.body))
    (hsegment : m'.recorder.activeSegment = m.recorder.activeSegment)
    (hfollowing : m'.recorder.Following)
    (hstep : Executes settings (m.stack.any Activation.isLoop)
      (.statement (top.index :: top.site) s) ⟨m.recorder, m.sequences⟩ ⟨m'.recorder, m'.sequences⟩
      .next) : Refines settings p m m' := by
  have hnested := hm.nested
  rw [hstack] at hnested hstep
  refine ⟨⟨?_, hdefined, ?_, hfollowing⟩, fun final h => ?_⟩
  · rw [hsame]
    exact hnested.reindex _
  · rw [hsegment, hm.segment, hstack, hsame]
    rfl
  · unfold Means at *
    rw [hsame, hcounters] at h
    rw [hstack]
    exact Completes.cons hs hstep h

/-- A statement that enters a block. -/
theorem refines_of_enter (hm : WellNested p m) (hstack : m.stack = top :: below) {m' : Machine}
    {a : Activation}
    (hentered : m'.stack = a :: { top with index := top.index + 1 } :: below)
    (hsequences : m'.sequences = m.sequences) {home : Option String}
    (hlocated : p.blockAt a.site = some (home, a.block))
    (hloop : ∀ site passes, a.kind = .loop site passes → site = a.site)
    (hinside : p.Inside a.site top.site)
    (hsegment : m'.recorder.activeSegment = activeSegment m'.stack)
    (hfollowing : m'.recorder.Following)
    (hmeans : ∀ final, Means settings m' final → Means settings m final) :
    Refines settings p m m' := by
  have hnested := hm.nested
  rw [hstack] at hnested
  refine ⟨⟨?_, ?_, hsegment, hfollowing⟩, hmeans⟩
  · rw [hentered]
    exact Nested.push (hnested.reindex _) hlocated hloop hinside
  · rw [hsequences]
    exact hm.defined

theorem refines_effect (hm : WellNested p m) (hstack : m.stack = top :: below)
    (hs : top.block[top.index]? = some s) {f : Recorder → Recorder}
    (hf : s.effect? (top.index :: top.site) = some f) :
    Refines settings p m ((m.fetch top below).mapRecorder fun r => (f r).follow) := by
  refine refines_of_step hm hstack hs rfl rfl hm.defined ?_ (following_follow _) (.effect hf)
  have hfollow : ∀ r : Recorder, r.follow.activeSegment = r.activeSegment := by
    intro r
    unfold Recorder.follow
    split <;> rfl
  exact (hfollow _).trans (activeSegment_of_effect hf _)

theorem refines_define (hm : WellNested p m) (hstack : m.stack = top :: below) {name : String}
    {body : Block} (hs : top.block[top.index]? = some (.define name body)) {n : Machine}
    (h : (m.fetch top below).dispatch settings (top.index :: top.site) (.define name body) =
      .running n) : Refines settings p m n := by
  cases h
  refine refines_of_step hm hstack hs rfl rfl ?_ rfl hm.following .define
  intro other q hq
  have hnested := hm.nested
  rw [hstack] at hnested
  obtain ⟨home, hlocated⟩ := hnested.located top List.mem_cons_self
  simp only [fetch, Table.find?_insert] at hq
  split at hq
  · rename_i heq
    cases hq
    rw [heq]
    exact Program.blockAt_define hlocated hs
  · exact hm.defined other q hq

theorem refines_call (hm : WellNested p m) (hstack : m.stack = top :: below) {name : String}
    (hs : top.block[top.index]? = some (.call name)) {n : Machine}
    (h : (m.fetch top below).dispatch settings (top.index :: top.site) (.call name) = .running n) :
    Refines settings p m n := by
  simp only [dispatch] at h
  split at h
  · rename_i q hq
    have hn := eq_of_enter h
    subst hn
    have hnested := hm.nested
    rw [hstack] at hnested
    obtain ⟨home, hlocated⟩ := hnested.located top List.mem_cons_self
    have hbody := hm.defined name q hq
    have hinside := Program.inside_of_call hlocated hbody (List.mem_of_getElem? hs)
    refine refines_of_enter hm hstack rfl rfl hbody (by simp) hinside ?_ hm.following ?_
    · rw [activeSegment_cons _ (by simp)]
      exact hm.segment.trans (by rw [hstack]; rfl)
    · intro final hfinal
      obtain ⟨σ', signal, hexec, hrest⟩ := Completes.enter hfinal
      unfold Means
      rw [hstack]
      exact Completes.cons hs (.call hq hexec) hrest
  · rename_i hq
    cases h
    exact refines_of_step hm hstack hs rfl rfl hm.defined rfl hm.following (.undefined hq)

theorem refines_conditional (hm : WellNested p m) (hstack : m.stack = top :: below)
    {branches : List Branch} {otherwise : Block}
    (hs : top.block[top.index]? = some (.conditional branches otherwise)) {n : Machine}
    (h : (m.fetch top below).dispatch settings (top.index :: top.site)
      (.conditional branches otherwise) = .running n) : Refines settings p m n := by
  obtain ⟨k, arm, heq, hchosen⟩ := chooseBranch_spec m.recorder.env 0 branches otherwise
  have heq' : (chooseBranch (m.fetch top below).recorder.env 0 branches).getD
      (branches.length, otherwise) = (k, arm) := by
    rw [Nat.zero_add, Nat.zero_add] at heq
    exact heq
  simp only [dispatch, heq'] at h
  split at h
  · rename_i hempty
    cases h
    rw [List.isEmpty_iff.mp hempty] at hchosen
    exact refines_of_step hm hstack hs rfl rfl hm.defined rfl hm.following
      (.conditional hchosen .nil)
  · have hn := eq_of_enter h
    subst hn
    have hnested := hm.nested
    rw [hstack] at hnested
    obtain ⟨home, hlocated⟩ := hnested.located top List.mem_cons_self
    have hbody := Program.blockAt_arm hlocated hs hchosen.1
    have hinside := Program.inside_of_longer hlocated hbody
      (by simp only [List.length_cons]; omega)
    refine refines_of_enter hm hstack rfl rfl hbody (by simp) hinside ?_ hm.following ?_
    · rw [activeSegment_cons _ (by simp)]
      exact hm.segment.trans (by rw [hstack]; rfl)
    · intro final hfinal
      obtain ⟨σ', signal, hexec, hrest⟩ := Completes.enter hfinal
      unfold Means
      rw [hstack]
      exact Completes.cons hs (.conditional hchosen hexec) hrest

theorem refines_segment (hm : WellNested p m) (hstack : m.stack = top :: below) {name : String}
    {body : Block} (hs : top.block[top.index]? = some (.segment name body)) {n : Machine}
    (h : (m.fetch top below).dispatch settings (top.index :: top.site) (.segment name body) =
      .running n) : Refines settings p m n := by
  simp only [dispatch] at h
  split at h
  · rename_i entered hentered
    have heq := eq_of_enter hentered
    subst heq
    cases h
    have hnested := hm.nested
    rw [hstack] at hnested
    obtain ⟨home, hlocated⟩ := hnested.located top List.mem_cons_self
    have hbody := Program.blockAt_segment hlocated hs
    have hinside := Program.inside_of_longer hlocated hbody
      (by simp only [List.length_cons]; omega)
    refine refines_of_enter hm hstack rfl rfl hbody (by simp) hinside rfl hm.following ?_
    intro final hfinal
    obtain ⟨σ', signal, hexec, hrest⟩ := Completes.enterSegment hfinal
    have hrestored : activeSegment (m.fetch top below).stack = m.recorder.activeSegment := by
      rw [hm.segment, hstack]
      rfl
    rw [hrestored] at hrest
    unfold Means
    rw [hstack]
    exact Completes.cons hs (.segment hexec) hrest
  · cases h

theorem passesOf_of_total (env : Env) (count : LoopCount) :
    (total? env count = none → passesOf env count = some 0) ∧
    ∀ total, total? env count = some total →
      passesOf env count = total.map Int.toNat ∧ ∀ n ∈ total, 0 < n := by
  cases count with
  | infinite => simp [total?, passesOf]
  | times e =>
    simp only [total?, passesOf]
    split
    · rename_i hle
      simp [Int.toNat_eq_zero.mpr hle]
    · rename_i hle
      simp only [reduceCtorEq, false_implies, true_and, Option.some.injEq]
      rintro total rfl
      refine ⟨rfl, ?_⟩
      rintro n ⟨⟩
      omega

/-- When a loop is entered, all its passes but one are left. -/
theorem passesLeft_start (settings : EngineSettings) (counters : List (Site × Int)) (site : Site)
    {total : Option Int} (h : ∀ n ∈ total, 0 < n) :
    total.map Int.toNat ≠ some 0 ∧
    (total.map Int.toNat).map (· - 1) =
      passesLeft (Assoc.assign site 0 counters) site (passCount settings total) := by
  cases total with
  | none => simp [passCount, passesLeft]
  | some n =>
    have hpos := h n rfl
    refine ⟨?_, ?_⟩
    · simp only [Option.map_some, ne_eq, Option.some.injEq]
      omega
    · simp only [passCount]
      split
      · simp only [passesLeft, Assoc.find?_assign_self, Option.getD_some, Option.map_some]
        congr 1
        omega
      · simp only [passesLeft, Assoc.find?_assign_self, Option.getD_some, Option.map_some]
        congr 1
        omega

theorem activeSegment_markLoopStart (passes : PassCount) (r : Recorder) :
    (markLoopStart passes r).activeSegment = r.activeSegment := by
  unfold markLoopStart
  split
  · rfl
  · split <;> rfl

/-- The counter of a loop on top of the stack concerns no other open loop. -/
theorem Completes.forget (hp : p.Acyclic) {a : Activation} (hnested : Nested p (a :: below))
    {counters : List (Site × Int)} {count : Int} {signal : Signal} {σ final : Situation}
    (h : Completes settings (Assoc.assign a.site count counters) below signal σ final) :
    Completes settings counters below signal σ final :=
  h.congr fun _ hb _ _ hkind => Assoc.find?_assign_ne _ _ (hnested.fresh hp hb hkind)

/-- A loop without passes only reports on its count. -/
theorem refines_skippedLoop (hm : WellNested p m) (hstack : m.stack = top :: below)
    {count : LoopCount} {body : Block} (hs : top.block[top.index]? = some (.loop count body))
    (htotal : total? m.recorder.env count = none) :
    Refines settings p m
      ((m.fetch top below).mapRecorder fun r => r.note (passFaults r.env count)) := by
  refine refines_of_step hm hstack hs rfl rfl hm.defined rfl hm.following ?_
  have hopen : openLoop settings count m.recorder =
      m.recorder.note (passFaults m.recorder.env count) := by
    simp only [openLoop, htotal]
  have hexec : Executes settings (m.stack.any Activation.isLoop)
      (.passes (top.index :: top.site) body (passesOf m.recorder.env count))
      ⟨openLoop settings count m.recorder, m.sequences⟩
      ⟨openLoop settings count m.recorder, m.sequences⟩ .next := by
    rw [(passesOf_of_total m.recorder.env count).1 htotal]
    exact .exhausted
  have hloop := Executes.loop (σ := ⟨m.recorder, m.sequences⟩) hexec
  rw [hopen] at hloop
  exact hloop

theorem refines_enterLoop (hp : p.Acyclic) (hm : WellNested p m) (hstack : m.stack = top :: below)
    {count : LoopCount} {body : Block} (hs : top.block[top.index]? = some (.loop count body))
    {total : Option Int} (htotal : total? m.recorder.env count = some total) {n : Machine}
    (h : ((m.fetch top below).mapRecorder fun r => r.note (passFaults r.env count)).enterLoop
      settings (top.index :: top.site) body total = .running n) : Refines settings p m n := by
  obtain ⟨hpasses, hpos⟩ := (passesOf_of_total m.recorder.env count).2 total htotal
  obtain ⟨hleft, heq⟩ := passesLeft_start settings m.counters (top.index :: top.site) hpos
  have hopen : openLoop settings count m.recorder = markLoopStart (passCount settings total)
      (m.recorder.note (passFaults m.recorder.env count)) := by
    simp only [openLoop, htotal]
  unfold enterLoop at h
  have hn := eq_of_enter h
  subst hn
  have hnested := hm.nested
  rw [hstack] at hnested
  obtain ⟨home, hlocated⟩ := hnested.located top List.mem_cons_self
  have hbody := Program.blockAt_loop hlocated hs
  have hinside := Program.inside_of_longer hlocated hbody
    (by simp only [List.length_cons]; omega)
  have hpush := Nested.push (a := ⟨top.index :: top.site, body, 0,
    .loop (top.index :: top.site) (passCount settings total)⟩)
    (hnested.reindex (top.index + 1)) hbody (by simp) hinside
  refine refines_of_enter hm hstack rfl rfl hbody (by simp) hinside ?_ ?_ ?_
  · rw [activeSegment_cons _ (by simp)]
    refine (activeSegment_markLoopStart _ _).trans (hm.segment.trans ?_)
    rw [hstack]
    rfl
  · exact (Quiet.markLoopStart _ _).following hm.following
  · intro final hfinal
    obtain ⟨σ', hexec, hrest⟩ := Completes.enterLoop hfinal hleft heq
    unfold Means
    rw [hstack]
    refine Completes.cons hs (.loop ?_) (Completes.forget hp hpush hrest)
    rw [hpasses, Situation.map, hopen]
    exact hexec

theorem refines_loop (hp : p.Acyclic) (hm : WellNested p m) (hstack : m.stack = top :: below)
    {count : LoopCount} {body : Block} (hs : top.block[top.index]? = some (.loop count body))
    {n : Machine} (h : (m.fetch top below).dispatch settings (top.index :: top.site)
      (.loop count body) = .running n) : Refines settings p m n := by
  simp only [dispatch] at h
  split at h
  · rename_i htotal
    cases h
    exact refines_skippedLoop hm hstack hs htotal
  · rename_i total htotal
    exact refines_enterLoop hp hm hstack hs htotal h

theorem refines_unwind (hm : WellNested p m) (hstack : m.stack = top :: below)
    (hs : top.block[top.index]? = some s)
    {resume : Activation → List Activation → List Activation} {signal : Signal}
    (hsignal : signal ≠ .next)
    (hnested : ∀ {a : Activation} {below : List Activation}, Nested p (a :: below) →
      Nested p (resume a below))
    (hresume : ∀ {counters : List (Site × Int)} {a : Activation} {below : List Activation}
      {σ final : Situation}, a.isLoop = true →
      Completes settings counters (resume a below) .next σ final →
      Completes settings counters (a :: below) signal σ final)
    (hsegment : ∀ (a : Activation) (below : List Activation), a.isLoop = true →
      activeSegment (resume a below) = activeSegment (a :: below))
    (hexec : Executes settings (m.stack.any Activation.isLoop)
      (.statement (top.index :: top.site) s) ⟨m.recorder, m.sequences⟩ ⟨m.recorder, m.sequences⟩
      signal) :
    Refines settings p m ((m.fetch top below).unwind resume) := by
  have hstart := hm.nested
  rw [hstack] at hstart hexec
  have hactive : m.recorder.activeSegment =
      activeSegment ({ top with index := top.index + 1 } :: below) :=
    hm.segment.trans (by rw [hstack]; rfl)
  have hquiet : Quiet m.recorder ((m.fetch top below).unwind resume).recorder :=
    (Quiet.unwindTo resume (m.fetch top below).stack m.recorder).trans (Quiet.setSegment _ _)
  refine ⟨⟨Nested.unwindTo hnested (hstart.reindex _) _, hm.defined, rfl,
    hquiet.following hm.following⟩, fun final h => ?_⟩
  · unfold Means
    rw [hstack]
    exact Completes.cons hs hexec (Completes.unwindTo hsignal hresume hsegment hactive h)

theorem refines_breakLoop (hm : WellNested p m) (hstack : m.stack = top :: below)
    (hs : top.block[top.index]? = some .breakLoop) {n : Machine}
    (h : (m.fetch top below).dispatch settings (top.index :: top.site) .breakLoop = .running n) :
    Refines settings p m n := by
  have hloops : (m.fetch top below).stack.any Activation.isLoop =
      m.stack.any Activation.isLoop := by
    rw [hstack]
    rfl
  simp only [dispatch, hloops] at h
  split at h
  · rename_i hloop
    cases h
    refine refines_unwind hm hstack hs (by simp) (fun h => h.tail) Completes.leaveLoop ?_ ?_
    · intro a below ha
      refine (activeSegment_cons below ?_).symm
      intro name start hkind
      simp [Activation.isLoop, hkind] at ha
    · rw [hloop]
      exact .breakLoop
  · rename_i hloop
    cases h
    refine refines_of_step hm hstack hs rfl rfl hm.defined rfl hm.following ?_
    rw [Bool.eq_false_iff.mpr hloop]
    exact .strayBreak

theorem refines_continueLoop (hm : WellNested p m) (hstack : m.stack = top :: below)
    (hs : top.block[top.index]? = some .continueLoop) {n : Machine}
    (h : (m.fetch top below).dispatch settings (top.index :: top.site) .continueLoop =
      .running n) : Refines settings p m n := by
  have hloops : (m.fetch top below).stack.any Activation.isLoop =
      m.stack.any Activation.isLoop := by
    rw [hstack]
    rfl
  simp only [dispatch, hloops] at h
  split at h
  · rename_i hloop
    cases h
    refine refines_unwind hm hstack hs (by simp) (fun h => h.reindex _) Completes.endPass
      (fun _ _ _ => rfl) ?_
    rw [hloop]
    exact .continueLoop
  · rename_i hloop
    cases h
    refine refines_of_step hm hstack hs rfl rfl hm.defined rfl hm.following ?_
    rw [Bool.eq_false_iff.mpr hloop]
    exact .strayContinue

/-! ### Ends of blocks -/

/-- A block at its end does nothing more before it is left. -/
theorem Completes.leave {counters : List (Site × Int)} (hend : top.block[top.index]? = none)
    {σ σ' final : Situation} {signal : Signal}
    (hleaves : Leaves settings counters top below .next σ σ' signal)
    (h : Completes settings counters below signal σ' final) :
    Completes settings counters (top :: below) .next σ final := by
  have hrest : top.block.drop top.index = [] :=
    List.drop_eq_nil_of_le (List.getElem?_eq_none_iff.mp hend)
  refine ⟨σ, .next, σ', signal, ?_, hleaves, h⟩
  rw [Continues, if_pos rfl, hrest]
  exact .nil

theorem passesLeft_succ (counters : List (Site × Int)) (site : Site) (passes : PassCount) :
    passesLeft (Assoc.assign site ((Assoc.find? site counters).getD 0 + 1) counters) site passes =
      (passesLeft counters site passes).map (· - 1) := by
  cases passes with
  | short total =>
    simp only [passesLeft, Assoc.find?_assign_self, Option.getD_some, Option.map_some]
    congr 1
    omega
  | long total =>
    cases total with
    | none => rfl
    | some total =>
      simp only [passesLeft, Assoc.find?_assign_self, Option.getD_some, Option.map_some]
      congr 1
      omega

theorem refines_nextPass (hp : p.Acyclic) (hm : WellNested p m) (hstack : m.stack = top :: below)
    (hend : top.block[top.index]? = none) {site : Site} {passes : PassCount}
    (hkind : top.kind = .loop site passes) {again : Bool}
    (hagain : again = true ↔ passesLeft m.counters site passes ≠ some 0) {m' : Machine}
    (hnext : m'.stack = if again then { top with index := 0 } :: below else below)
    (hcounters : m'.counters = Assoc.assign site (m.counter site + 1) m.counters)
    (hrecorder : m'.recorder = m.recorder) (hsequences : m'.sequences = m.sequences) :
    Refines settings p m m' := by
  have hnested := hm.nested
  rw [hstack] at hnested
  have hsite : site = top.site := hnested.loops top List.mem_cons_self site passes hkind
  have hactive : m.recorder.activeSegment = activeSegment below :=
    hm.segment.trans (by rw [hstack, activeSegment_cons below (by simp [hkind])])
  have hleaves : ∀ σ', Executes settings (below.any Activation.isLoop)
      (.passes top.site top.block (passesLeft m.counters site passes))
      ⟨m.recorder, m.sequences⟩ σ' .next →
      Leaves settings m.counters top below .next ⟨m.recorder, m.sequences⟩ σ' .next := by
    intro σ' hexec
    simpa only [Leaves, hkind, reduceCtorEq, if_false, true_and] using hexec
  refine ⟨⟨?_, ?_, ?_, ?_⟩, fun final h => ?_⟩
  · rw [hnext]
    split
    · exact hnested.reindex 0
    · exact hnested.tail
  · rw [hsequences]
    exact hm.defined
  · rw [hrecorder, hactive, hnext]
    split
    · exact (activeSegment_cons below (by simp [hkind])).symm
    · rfl
  · rw [hrecorder]
    exact hm.following
  · unfold Means at *
    rw [hnext, hcounters, hrecorder, hsequences] at h
    rw [hstack]
    by_cases hleft : passesLeft m.counters site passes = some 0
    · have hlast : again = false := by
        rw [← Bool.not_eq_true]
        exact fun hyes => hagain.mp hyes hleft
      rw [hlast, hsite] at h
      refine Completes.leave hend (hleaves _ ?_) (Completes.forget hp hnested h)
      rw [hleft]
      exact .exhausted
    · rw [hagain.mpr hleft, if_pos rfl] at h
      obtain ⟨topSite, block, index, kind⟩ := top
      cases hkind
      obtain ⟨σ', hexec, hrest⟩ := Completes.enterLoop h hleft (passesLeft_succ _ _ _).symm
      rw [hsite] at hrest
      exact Completes.leave hend (hleaves σ' hexec) (Completes.forget hp hnested hrest)

theorem nextPass_spec (n : Machine) (top : Activation) (below : List Activation) (again : Bool) :
    (n.nextPass top below again).stack =
        (if again then { top with index := 0 } :: below else below) ∧
      (n.nextPass top below again).counters = n.counters ∧
      (n.nextPass top below again).sequences = n.sequences := by
  cases again <;> exact ⟨rfl, rfl, rfl⟩

theorem countPass_spec (settings : EngineSettings) (n : Machine) :
    (n.countPass settings).1.counters = n.counters ∧
      (n.countPass settings).1.sequences = n.sequences := by
  simp only [countPass]
  split <;> exact ⟨rfl, rfl⟩

theorem refines_finishPass (hp : p.Acyclic) (hm : WellNested p m) (hstack : m.stack = top :: below)
    (hend : top.block[top.index]? = none) {site : Site} {passes : PassCount}
    (hkind : top.kind = .loop site passes) {m' : Machine}
    (h : m.finishPass settings top below site passes = .running m') : Refines settings p m m' := by
  cases passes with
  | short total =>
    cases h
    obtain ⟨hnext, hcounters, hsequences⟩ := nextPass_spec
      { m with counters := Assoc.assign site (m.counter site + 1) m.counters } top below
      (m.counter site + 1 < total)
    refine refines_nextPass hp hm hstack hend hkind ?_ hnext hcounters (recorder_nextPass _ _ _ _)
      hsequences
    refine decide_eq_true_iff.trans ?_
    simp only [passesLeft, counter, ne_eq, Option.some.injEq]
    omega
  | long total =>
    simp only [finishPass] at h
    split at h
    · cases h
    · cases h
      have hcounted := countPass_spec settings
        { m with counters := Assoc.assign site (m.counter site + 1) m.counters }
      have hnext := nextPass_spec (countPass settings
        { m with counters := Assoc.assign site (m.counter site + 1) m.counters }).1 top below
        (total.all (m.counter site + 1 < ·))
      refine refines_nextPass hp hm hstack hend hkind ?_ hnext.1 (hnext.2.1.trans hcounted.1)
        ((recorder_nextPass _ _ _ _).trans (recorder_countPass _)) (hnext.2.2.trans hcounted.2)
      cases total with
      | none => simp [passesLeft]
      | some total =>
        refine decide_eq_true_iff.trans ?_
        simp only [passesLeft, counter, Option.map_some, ne_eq, Option.some.injEq]
        omega

theorem refines_finishBlock (hp : p.Acyclic) (hm : WellNested p m)
    (hstack : m.stack = top :: below) (hend : top.block[top.index]? = none) {m' : Machine}
    (h : m.finishBlock settings top below = .running m') : Refines settings p m m' := by
  have hnested := hm.nested
  rw [hstack] at hnested
  have hleft : (Machine.withStack (m.mapRecorder (close top)) below).recorder.Following :=
    ((Quiet.close top _).trans (Quiet.setSegment _ _)).following hm.following
  unfold finishBlock at h
  cases hkind : top.kind with
  | block =>
    simp only [hkind] at h
    cases h
    refine ⟨⟨hnested.tail, hm.defined, rfl, hleft⟩, fun final hfinal => ?_⟩
    have hsame : (close top m.recorder).setSegment (activeSegment below) = m.recorder := by
      simp only [close, hkind]
      refine setSegment_eq (hm.segment.trans ?_)
      rw [hstack, activeSegment_cons below (by simp [hkind])]
    change Completes settings m.counters below .next
      ⟨(close top m.recorder).setSegment (activeSegment below), m.sequences⟩ final at hfinal
    rw [hsame] at hfinal
    unfold Means
    rw [hstack]
    exact Completes.leave hend (by simp only [Leaves, hkind, and_self]) hfinal
  | segment name start =>
    simp only [hkind] at h
    cases h
    refine ⟨⟨hnested.tail, hm.defined, rfl, hleft⟩, fun final hfinal => ?_⟩
    change Completes settings m.counters below .next
      ⟨(close top m.recorder).setSegment (activeSegment below), m.sequences⟩ final at hfinal
    simp only [close, hkind] at hfinal
    unfold Means
    rw [hstack]
    exact Completes.leave hend (by simp only [Leaves, hkind, Situation.map, and_self]) hfinal
  | loop site passes =>
    simp only [hkind] at h
    exact refines_finishPass hp hm hstack hend hkind h

/-! ### Runs -/

/-- Every turn goes on with what the machine stands for. -/
theorem refines_turn (hp : p.Acyclic) (hm : WellNested p m) (hstack : m.stack = top :: below)
    {m' : Machine} (h : m.turn settings top below = .running m') : Refines settings p m m' := by
  cases hs : top.block[top.index]? with
  | none =>
    simp only [turn, hs] at h
    exact refines_finishBlock hp hm hstack hs h
  | some s =>
    cases hf : s.effect? (top.index :: top.site) with
    | some f =>
      rw [turn_of_effect hs hf] at h
      cases h
      exact refines_effect hm hstack hs hf
    | none =>
      have hquiet := quiet_dispatch settings (m.fetch top below) hf
      rw [turn_of_statement hs] at h
      cases hd : (m.fetch top below).dispatch settings (top.index :: top.site) s with
      | stopped n why =>
        rw [hd] at h
        cases h
      | running n =>
        rw [hd] at hquiet h
        have hrecorder : n.recorder.follow = n.recorder :=
          follow_eq (hquiet.following hm.following)
        have hfollow : n.mapRecorder Recorder.follow = n := by
          change { n with recorder := n.recorder.follow } = n
          rw [hrecorder]
        rw [Outcome.follow, hfollow] at h
        cases h
        cases s with
        | define name body => exact refines_define hm hstack hs hd
        | call name => exact refines_call hm hstack hs hd
        | conditional branches otherwise => exact refines_conditional hm hstack hs hd
        | segment name body => exact refines_segment hm hstack hs hd
        | loop count body => exact refines_loop hp hm hstack hs hd
        | breakLoop => exact refines_breakLoop hm hstack hs hd
        | continueLoop => exact refines_continueLoop hm hstack hs hd
        | _ => cases hf

theorem refines_reaches (hp : p.Acyclic) {limit : Nat} {m m' : Machine} (hm : WellNested p m)
    (h : Reaches settings limit m m') : Refines settings p m m' := by
  induction h with
  | refl => exact ⟨hm, fun _ h => h⟩
  | tail _ hstep ih =>
    obtain ⟨hmiddle, hmeans⟩ := ih
    obtain ⟨top, below, hstack, -, -, hturn⟩ := turn_of_advance hstep
    obtain ⟨hlast, hmeans'⟩ := refines_turn hp hmiddle hstack hturn
    exact ⟨hlast, fun final hfinal => hmeans final (hmeans' final hfinal)⟩

theorem why_of_enter {a : Activation} {n : Machine} {why : Stop}
    (h : m.enter settings a = .stopped n why) : why = .tooDeep := by
  unfold enter at h
  split at h <;> cases h
  rfl

theorem why_of_dispatch {site : Site} {n : Machine} {why : Stop}
    (h : m.dispatch settings site s = .stopped n why) : why = .tooDeep := by
  cases hf : s.effect? site with
  | some f =>
    rw [dispatch_of_effect hf] at h
    cases h
  | none =>
    cases s with
    | loop count body =>
      simp only [dispatch] at h
      split at h
      · cases h
      · exact why_of_enter h
    | conditional branches otherwise =>
      simp only [dispatch] at h
      split at h
      · cases h
      · exact why_of_enter h
    | breakLoop =>
      simp only [dispatch] at h
      split at h <;> cases h
    | continueLoop =>
      simp only [dispatch] at h
      split at h <;> cases h
    | define name body => cases h
    | call name =>
      simp only [dispatch] at h
      split at h
      · exact why_of_enter h
      · cases h
    | segment name body =>
      simp only [dispatch] at h
      split at h
      · cases h
      · rename_i hentered
        cases h
        exact why_of_enter hentered
    | _ => cases hf

theorem why_of_finishBlock {n : Machine} {why : Stop}
    (h : m.finishBlock settings top below = .stopped n why) : why = .stabilized := by
  unfold finishBlock at h
  split at h
  · rename_i site passes _
    cases passes with
    | short total => cases h
    | long total =>
      simp only [finishPass] at h
      split at h <;> cases h
      rfl
  · cases h

/-- A run completes only when nothing is left on the stack. -/
theorem stack_of_completed {limit : Nat} {n : Machine}
    (h : m.advance settings limit = .stopped n .completed) : m.stack = [] ∧ n = m := by
  unfold advance at h
  split at h
  · rename_i hstack
    cases h
    exact ⟨hstack, rfl⟩
  · split at h
    · cases h
    · split at h
      · cases h
      · unfold turn at h
        split at h
        · simp only at h
          split at h
          · cases h
          · rename_i hd
            cases h
            cases why_of_dispatch hd
        · cases why_of_finishBlock h

end Machine

namespace Performance
open Machine

/-- A completed run of a program in which no sequence calls itself records what the structure of
the program yields, and it yields nothing else. -/
theorem completed_yields (p : Performance) (maxSteps : Option Nat) (hp : p.program.Acyclic)
    (hdone : (p.perform maxSteps).why = .completed) :
    (∃ r, p.Yields r) ∧ ∀ r, p.Yields r →
      (p.outcome maxSteps).1.recorder = r ∧ (p.perform maxSteps).timeline = r.timeline p.start := by
  obtain ⟨last, hreaches, hstop⟩ :=
    reaches_end p.settings (p.limit maxSteps) (Machine.start p.program p.recorder)
  change last.advance p.settings (p.limit maxSteps) =
    .stopped (p.outcome maxSteps).1 (p.outcome maxSteps).2 at hstop
  change (p.outcome maxSteps).2 = .completed at hdone
  rw [hdone] at hstop
  obtain ⟨hstack, hlast⟩ := stack_of_completed hstop
  obtain ⟨-, hmeans⟩ := refines_reaches hp
    (wellNested_start p.program rfl (Recorder.following_start _ _ _ _)) hreaches
  have hend : Means p.settings last ⟨last.recorder, last.sequences⟩ := by
    unfold Means
    rw [hstack]
    rfl
  obtain ⟨σ, signal, hexec, hσ⟩ := Completes.enter (hmeans _ hend)
  cases hexec.signal_eq rfl
  cases hσ
  have hyields : p.Yields last.recorder := ⟨last.sequences, hexec⟩
  refine ⟨⟨_, hyields⟩, fun r hr => ?_⟩
  obtain ⟨sequences, hexec'⟩ := hr
  obtain ⟨hsame, -⟩ := hexec.unique hexec'
  cases hsame
  refine ⟨congrArg Machine.recorder hlast, ?_⟩
  have hclose : (p.outcome maxSteps).1.closeAll = last.recorder := by
    rw [hlast, closeAll, hstack]
    rfl
  change ((p.outcome maxSteps).1.closeAll).timeline p.start = _
  rw [hclose]

def laps : Performance where
  program := .ofBlock [
    .define "lap" [.segment "run" [
      .move (.along .right (.int 2)),
      .conditional [.mk (.binary (.comparison .ge) (.variable "widget.x") (.int 4)) [.breakLoop]]
        [.continueLoop]]],
    .forever [.call "lap", .sync "never"],
    .pause .one]
  settings := {}
  widget := ⟨1, 1⟩
  container := ⟨9, 9⟩
  start := .plain 0 0
  eventTicks := ∅
  source := fun _ => none

theorem completed_yields_laps :
    laps.program.Acyclic ∧ (laps.perform none).why = .completed ∧ (∃ r, laps.Yields r) ∧
      ∀ r, laps.Yields r → (laps.outcome none).1.recorder = r ∧
        (laps.perform none).timeline = r.timeline laps.start := by
  have hacyclic : laps.program.Acyclic := laps.program.acyclic_of_rank (fun _ => 0) (by decide)
  have hdone : (laps.perform none).why = .completed := by cbv
  obtain ⟨hyields, hunique⟩ := completed_yields laps none hacyclic hdone
  exact ⟨hacyclic, hdone, hyields, hunique⟩

example : ((laps.perform none).timeline.frames.map fun f => (f.coords, f.segment)) =
    #[((1, 0), some "run"), ((2, 0), some "run"), ((3, 0), some "run"), ((4, 0), some "run"),
      ((4, 0), none)] := by cbv

end Performance
end Choreography
