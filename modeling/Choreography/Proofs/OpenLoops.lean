import Choreography.Proofs.Executions
import Choreography.Proofs.Segments

/-! # Open loops

The loops that are open while a run goes on. A turn enters a loop, leaves the innermost one, or
leaves them all as they are. Since a pass of a loop without end is always followed by another one,
only a break leaves such a loop, and a run that has entered one and never breaks it off does not
come to the end of its program. -/
namespace Choreography

def Statement.isBreak : Statement → Bool
  | .breakLoop => true
  | _ => false

namespace Machine

def passes? (a : Activation) : Option PassCount :=
  match a.kind with
  | .loop _ passes => some passes
  | _ => none

def openLoops (stack : List Activation) : List PassCount := stack.filterMap passes?

def inEndless (m : Machine) : Bool := (openLoops m.stack).any fun passes => passes.total.isNone

def breaksOff (m : Machine) : Bool :=
  (m.next?.any fun next => next.2.isBreak) &&
    (openLoops m.stack).head?.any fun passes => passes.total.isNone

variable {settings : EngineSettings} {limit : Nat} {m m' : Machine} {site : Site} {s : Statement}
  {a top : Activation} {below : List Activation} {passes : PassCount}

theorem openLoops_cons (a : Activation) (below : List Activation) :
    openLoops (a :: below) = (passes? a).toList ++ openLoops below := by
  cases h : passes? a <;> simp [openLoops, h]

theorem openLoops_suffix_cons (a : Activation) (below : List Activation) :
    openLoops below <:+ openLoops (a :: below) := by
  rw [openLoops_cons]
  exact List.suffix_append _ _

theorem passes?_of_isLoop (h : a.isLoop = true) : ∃ passes, passes? a = some passes := by
  obtain ⟨site, block, index, kind⟩ := a
  cases kind with
  | loop site passes => exact ⟨passes, rfl⟩
  | block => cases h
  | segment => cases h

theorem passes?_of_not_isLoop (h : a.isLoop = false) : passes? a = none := by
  obtain ⟨site, block, index, kind⟩ := a
  cases kind with
  | loop site passes => cases h
  | block => rfl
  | segment => rfl

/-! ### Unwinding -/

theorem openLoops_endPass (stack : List Activation) (r : Recorder) :
    openLoops (unwindTo endPass stack r).1 = openLoops stack := by
  induction stack generalizing r with
  | nil => rfl
  | cons a below ih =>
    rw [unwindTo]
    split
    · rfl
    · rename_i hplain
      rw [ih, openLoops_cons, passes?_of_not_isLoop (Bool.not_eq_true _ ▸ hplain)]
      rfl

theorem openLoops_leaveLoop (stack : List Activation) (r : Recorder) :
    openLoops (unwindTo leaveLoop stack r).1 = (openLoops stack).tail := by
  induction stack generalizing r with
  | nil => rfl
  | cons a below ih =>
    rw [unwindTo]
    split
    · rename_i hloop
      obtain ⟨passes, hpasses⟩ := passes?_of_isLoop hloop
      rw [openLoops_cons, hpasses]
      rfl
    · rename_i hplain
      rw [ih, openLoops_cons, passes?_of_not_isLoop (Bool.not_eq_true _ ▸ hplain)]
      rfl

/-! ### Turns -/

/-- Only a break leaves a loop, and it leaves no more than the innermost one. -/
theorem openLoops_dispatch (h : m.dispatch settings site s = .running m') :
    openLoops m.stack <:+ openLoops m'.stack ∨
      s.isBreak = true ∧ openLoops m'.stack = (openLoops m.stack).tail := by
  have hsame : m'.stack = m.stack → openLoops m.stack <:+ openLoops m'.stack := by
    intro heq
    rw [heq]
  have hpushed : ∀ a, m'.stack = a :: m.stack → openLoops m.stack <:+ openLoops m'.stack := by
    intro a heq
    rw [heq]
    exact openLoops_suffix_cons a m.stack
  cases s with
  | loop count body =>
    simp only [dispatch] at h
    split at h
    · cases h
      exact .inl (hsame rfl)
    · exact .inl (hpushed _ (congrArg Control.stack (control_of_enterLoop h)))
  | conditional branches otherwise =>
    simp only [dispatch] at h
    split at h
    · cases h
      exact .inl (hsame rfl)
    · exact .inl (hpushed _ (congrArg Control.stack (control_of_enter h)))
  | breakLoop =>
    simp only [dispatch] at h
    split at h
    · cases h
      exact .inr ⟨rfl, openLoops_leaveLoop m.stack m.recorder⟩
    · cases h
      exact .inl (hsame rfl)
  | continueLoop =>
    simp only [dispatch] at h
    split at h
    · cases h
      have hkept : openLoops (m.unwind endPass).stack = openLoops m.stack :=
        openLoops_endPass m.stack m.recorder
      rw [hkept]
      exact .inl (List.suffix_refl _)
    · cases h
      exact .inl (hsame rfl)
  | define name body =>
    cases h
    exact .inl (hsame rfl)
  | call name =>
    simp only [dispatch] at h
    split at h
    · exact .inl (hpushed _ (congrArg Control.stack (control_of_enter h)))
    · cases h
      exact .inl (hsame rfl)
  | segment name body =>
    simp only [dispatch] at h
    split at h
    · rename_i n hn
      cases h
      exact .inl (hpushed _ (congrArg Control.stack (control_of_enter hn)))
    · cases h
  | _ =>
    cases h
    exact .inl (hsame rfl)

theorem inEndless_of_suffix (h : m.inEndless = true)
    (hsuffix : openLoops m.stack <:+ openLoops m'.stack) : m'.inEndless = true := by
  obtain ⟨passes, hmem, hnone⟩ := List.any_eq_true.mp h
  exact List.any_eq_true.mpr ⟨passes, hsuffix.subset hmem, hnone⟩

/-- Leaving the innermost loop, which has an end, leaves those around it open. -/
theorem inEndless_of_tail (h : m.inEndless = true)
    (htail : openLoops m'.stack = (openLoops m.stack).tail)
    (hhead : ((openLoops m.stack).head?.any fun passes => passes.total.isNone) = false) :
    m'.inEndless = true := by
  unfold inEndless at h ⊢
  rw [htail]
  cases hloops : openLoops m.stack with
  | nil =>
    rw [hloops] at h
    cases h
  | cons passes loops =>
    rw [hloops] at h hhead
    have hend : passes.total.isNone = false := hhead
    rwa [List.any_cons, hend, Bool.false_or] at h

theorem openLoops_fetch (hstack : m.stack = top :: below) :
    openLoops (m.fetch top below).stack = openLoops m.stack := by
  rw [hstack]
  rfl

/-- An open loop without end stays open in a turn that does not break it off. -/
theorem inEndless_advance (h : m.inEndless = true) (hunbroken : m.breaksOff = false)
    (hadvance : m.advance settings limit = .running m') : m'.inEndless = true := by
  obtain ⟨top, below, hstack, -, -, hturn⟩ := turn_of_advance hadvance
  cases hs : top.block[top.index]? with
  | some s =>
    rw [turn_of_statement hs] at hturn
    obtain ⟨n, hn, hcontrol⟩ := control_of_follow hturn
    have hgone : m'.stack = n.stack := congrArg Control.stack hcontrol
    have hloops := openLoops_dispatch hn
    rw [openLoops_fetch hstack, ← hgone] at hloops
    rcases hloops with hsuffix | ⟨hbreak, htail⟩
    · exact inEndless_of_suffix h hsuffix
    · refine inEndless_of_tail h htail ?_
      simpa [breaksOff, next?_eq_of_stack hstack, hs, hbreak] using hunbroken
  | none =>
    have hturned := turned_of_turn hturn
    generalize hcontrol : m'.control = c at hturned
    cases hturned with
    | executed hsome =>
      rw [hs] at hsome
      cases hsome
    | left _ hkind =>
      have hleft : m'.stack = below := congrArg Control.stack hcontrol
      refine inEndless_of_suffix h ?_
      rw [hstack, hleft, openLoops_cons, passes?_of_not_isLoop hkind]
      exact List.suffix_refl _
    | @passed inner passes again _ hkind hagain =>
      have hgone : m'.stack = if again then { top with index := 0 } :: below else below :=
        congrArg Control.stack hcontrol
      have hpasses : passes? top = some passes := by simp [passes?, hkind]
      cases again with
      | true =>
        refine inEndless_of_suffix h ?_
        rw [hstack, hgone]
        exact List.suffix_refl _
      | false =>
        -- Another pass follows where there is no end, so the loop that is left has one.
        refine inEndless_of_tail h ?_ ?_
        · rw [hstack, hgone, openLoops_cons, hpasses]
          rfl
        · rw [hstack, openLoops_cons, hpasses]
          cases htotal : passes.total with
          | none =>
            rw [htotal] at hagain
            cases hagain
          | some n => simp [htotal]

theorem inEndless_of_entered (hentered : m.entered? = some (site, none))
    (hadvance : m.advance settings limit = .running m') : m'.inEndless = true := by
  obtain ⟨top, rest, body, -, -, hcontrol⟩ := control_of_entered hentered hadvance
  have hopened : m'.stack = _ := congrArg Control.stack hcontrol
  rw [inEndless, hopened]
  rfl

/-! ### Runs -/

/-- A run that has entered a loop without end and does not break it off is not completed. -/
theorem Turns.ne_completed {turns : List Machine} {final : Machine × Stop}
    (h : Turns settings limit m turns final)
    (hendless : m.inEndless = true ∨ ∃ x ∈ turns, ∃ site, x.entered? = some (site, none))
    (hunbroken : ∀ x ∈ turns, x.breaksOff = false) : final.2 ≠ .completed := by
  induction h with
  | @before m why hstop =>
    rintro rfl
    rcases hendless with hopen | ⟨x, hx, -⟩
    · rw [inEndless, (stack_of_completed hstop).1] at hopen
      cases hopen
    · cases hx
  | amid hstack _ hstop =>
    rintro rfl
    rw [(stack_of_completed hstop).1] at hstack
    cases hstack
  | @onward m next ms final hadvance _ ih =>
    obtain ⟨hfirst, hrest⟩ := List.forall_mem_cons.mp hunbroken
    refine ih ?_ hrest
    rcases hendless with hopen | ⟨x, hx, site, hentered⟩
    · exact .inl (inEndless_advance hopen hfirst hadvance)
    · rcases List.mem_cons.mp hx with rfl | hx
      · exact .inl (inEndless_of_entered hentered hadvance)
      · exact .inr ⟨x, hx, site, hentered⟩

end Machine
end Choreography
