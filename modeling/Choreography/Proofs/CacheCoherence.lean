import Choreography.Proofs.CachedTimelines

/-! # Coherence of the cache

What a widget holds after any requests. Its inputs are the latest ones that were given, its timeline
is what they give, and it has one exactly if nothing has dropped it since a computation. -/
namespace Choreography
namespace AnimatedWidget

inductive Request where
  | edit (e : Edit)
  | compute (ticks : Table Nat)

namespace Request

def apply : Request → AnimatedWidget → AnimatedWidget
  | .edit e, w => e.apply w
  | .compute ticks, w => (w.compute ticks).value.1

def program? : Request → Option Program
  | .edit (.setProgram program) => some program
  | _ => none

def sizes? : Request → Option (Size × Size)
  | .edit (.resize widget container) => some (widget, container)
  | _ => none

def ticks? : Request → Option (Table Nat)
  | .compute ticks => some ticks
  | _ => none

def Drops (p : Performance) : Request → Prop
  | .edit (.setProgram _) => True
  | .edit (.resize widget container) => ¬ (widget = p.widget ∧ container = p.container)
  | .edit .invalidate => True
  | .compute _ => False

variable {r : Request} {w : AnimatedWidget}

/-- Inputs that a request does not set stay as they are. -/
theorem performance_apply (r : Request) (w : AnimatedWidget) : (r.apply w).performance =
    { w.performance with
      program := r.program?.getD w.performance.program
      widget := (r.sizes?.getD (w.performance.widget, w.performance.container)).1
      container := (r.sizes?.getD (w.performance.widget, w.performance.container)).2
      eventTicks := r.ticks?.getD w.performance.eventTicks } := by
  cases r with
  | compute ticks => rfl
  | edit e =>
    cases e with
    | resize widget container =>
      simp only [apply, Edit.apply, AnimatedWidget.resize]
      split
      · rename_i hsame
        obtain ⟨rfl, rfl⟩ := hsame
        rfl
      · rfl
    | _ => rfl

theorem timeline_apply_of_drops (h : r.Drops w.performance) : (r.apply w).timeline = none := by
  cases r with
  | compute ticks => cases h
  | edit e =>
    cases e with
    | resize widget container => exact congrArg AnimatedWidget.timeline (if_neg h)
    | _ => rfl

theorem apply_of_not_drops {e : Edit} (h : ¬ (Request.edit e).Drops w.performance) :
    e.apply w = w := by
  cases e with
  | resize widget container => exact if_pos (not_not.mp h)
  | _ => exact absurd trivial h

/-- After a request there is a timeline if the request computes one or does not drop the one that was
there. -/
theorem timeline_apply_iff : (∃ t, (r.apply w).timeline = some t) ↔
    r.ticks?.isSome = true ∨ ((∃ t, w.timeline = some t) ∧ ¬ r.Drops w.performance) := by
  cases r with
  | compute ticks => exact ⟨fun _ => .inl rfl, fun _ => ⟨_, rfl⟩⟩
  | edit e =>
    have hticks : ¬ (Request.edit e).ticks?.isSome = true := nofun
    rw [or_iff_right hticks]
    by_cases hdrops : (Request.edit e).Drops w.performance
    · rw [timeline_apply_of_drops hdrops]
      exact ⟨fun ⟨t, ht⟩ => (by cases ht), fun h => absurd hdrops h.2⟩
    · have hsame : (Request.edit e).apply w = w := apply_of_not_drops hdrops
      rw [hsame]
      exact ⟨fun h => ⟨h, hdrops⟩, And.left⟩

end Request

variable {requests : List Request} {r : Request} {p : Performance}

def afterAll (w : AnimatedWidget) (requests : List Request) : AnimatedWidget :=
  requests.foldl (fun w r => r.apply w) w

theorem afterAll_concat (w : AnimatedWidget) (requests : List Request) (r : Request) :
    w.afterAll (requests ++ [r]) = r.apply (w.afterAll requests) := by
  rw [afterAll, List.foldl_append]
  rfl

/-- What has been set last, or what there was at first. -/
def latest {α : Type} (set? : Request → Option α) (initial : α) (requests : List Request) : α :=
  (requests.filterMap set?).getLast?.getD initial

theorem latest_concat {α : Type} (set? : Request → Option α) (initial : α)
    (requests : List Request) (r : Request) :
    latest set? initial (requests ++ [r]) = (set? r).getD (latest set? initial requests) := by
  rw [latest, List.filterMap_append]
  cases h : set? r with
  | none => rw [List.filterMap_cons_none h, List.filterMap_nil, List.append_nil, latest]; rfl
  | some a => rw [List.filterMap_cons_some h, List.filterMap_nil, List.getLast?_concat]; rfl

/-- A performance with the inputs that have been set last. -/
def latestInputs (p : Performance) (requests : List Request) : Performance :=
  { p with
    program := latest Request.program? p.program requests
    widget := (latest Request.sizes? (p.widget, p.container) requests).1
    container := (latest Request.sizes? (p.widget, p.container) requests).2
    eventTicks := latest Request.ticks? p.eventTicks requests }

theorem performance_afterAll (p : Performance) (requests : List Request) :
    ((of p).afterAll requests).performance = latestInputs p requests := by
  induction requests using List.reverseRecOn with
  | nil => rfl
  | append_singleton requests r ih =>
    rw [afterAll_concat, r.performance_apply, ih]
    simp only [latestInputs, latest_concat]

theorem made_afterAll (p : Performance) (requests : List Request) :
    ((of p).afterAll requests).Made := by
  induction requests using List.reverseRecOn with
  | nil => exact .of p
  | append_singleton requests r ih =>
    rw [afterAll_concat]
    cases r with
    | edit e => exact ih.edit e
    | compute ticks => exact ih.compute ticks

/-- The latest computation has returned the events of a timeline that is still there. -/
theorem returned_by_latest {t : Timeline} (h : ((of p).afterAll requests).timeline = some t) :
    ∃ earlier ticks later, requests = earlier ++ .compute ticks :: later ∧
      (∀ r ∈ later, r.ticks? = none) ∧ (((of p).afterAll earlier).compute ticks).value.2 = t.syncs := by
  induction requests using List.reverseRecOn with
  | nil => cases h
  | append_singleton requests r ih =>
    rw [afterAll_concat] at h
    cases r with
    | compute ticks =>
      cases h
      exact ⟨requests, ticks, [], rfl, fun _ hr => absurd hr List.not_mem_nil, rfl⟩
    | edit e =>
      have hold : ((of p).afterAll requests).timeline = some t := by
        rcases e.apply_cases ((of p).afterAll requests) with hsame | hnone
        · rw [← hsame]
          exact h
        · cases hnone.symm.trans h
      obtain ⟨earlier, ticks, later, rfl, hlater, hevents⟩ := ih hold
      refine ⟨earlier, ticks, later ++ [.edit e], by simp, fun r hr => ?_, hevents⟩
      rcases List.mem_append.mp hr with hr | hr
      · exact hlater r hr
      · rw [List.mem_singleton.mp hr]
        rfl

theorem cached_iff (p : Performance) (requests : List Request) :
    (∃ t, ((of p).afterAll requests).timeline = some t) ↔
      Since (fun _ r => r.ticks?.isSome = true)
        (fun earlier r => r.Drops (latestInputs p earlier)) requests := by
  induction requests using List.reverseRecOn with
  | nil =>
    refine ⟨?_, fun h => absurd h not_since_nil⟩
    rintro ⟨t, ht⟩
    cases ht
  | append_singleton requests r ih =>
    rw [since_concat, ← ih, afterAll_concat, Request.timeline_apply_iff, performance_afterAll]

theorem latest_of_last {α : Type} {set? : Request → Option α} {a initial : α}
    {earlier later : List Request} (hset : set? r = some a) (hlater : ∀ x ∈ later, set? x = none) :
    latest set? initial (earlier ++ r :: later) = a := by
  have hnone : later.filterMap set? = [] := List.filterMap_eq_nil_iff.mpr hlater
  rw [latest, List.filterMap_append, List.filterMap_cons_some hset, hnone, List.getLast?_concat]
  rfl

/-- Whatever is asked of a widget, its inputs are those that were given last, and a timeline that it
has is what these give. The latest computation was given the ticks of events among them and returned
the events of this timeline. There is a timeline exactly if none of the requests since a computation
has dropped it, and a change to the sizes that the widget has drops nothing. -/
theorem cache_coherent (p : Performance) (requests : List Request) :
    let w := (of p).afterAll requests
    w.performance = latestInputs p requests ∧
    (∀ t, w.timeline = some t → t = (w.performance.perform none).timeline ∧
      ∃ earlier later, requests = earlier ++ .compute w.performance.eventTicks :: later ∧
        (∀ r ∈ later, r.ticks? = none) ∧
        (((of p).afterAll earlier).compute w.performance.eventTicks).value.2 = t.syncs) ∧
    ((∃ t, w.timeline = some t) ↔
      Since (fun _ r => r.ticks?.isSome = true)
        (fun earlier r => r.Drops ((of p).afterAll earlier).performance) requests) ∧
    w.resize w.performance.widget w.performance.container = w := by
  intro w
  have hinputs : w.performance = latestInputs p requests := performance_afterAll p requests
  refine ⟨hinputs, fun t ht => ⟨(made_afterAll p requests).coherent t ht, ?_⟩, ?_, ?_⟩
  · obtain ⟨earlier, ticks, later, hrequests, hlater, hevents⟩ := returned_by_latest ht
    have hticks : w.performance.eventTicks = ticks := by
      rw [hinputs, hrequests]
      exact latest_of_last rfl hlater
    rw [hticks]
    exact ⟨earlier, later, hrequests, hlater, hevents⟩
  · simp only [performance_afterAll]
    exact cached_iff p requests
  · exact if_pos ⟨rfl, rfl⟩

end AnimatedWidget
end Choreography
