import Choreography.Proofs.Operations

/-! # Owners of declared events

An event has one owner, however many widgets declare it. The owner is always a registered widget
that declares the event. A declared event can be without an owner, though: an update that takes it
away from its owner leaves the other widgets that declare it out, until one of them is computed or
the event is registered again. -/
namespace Choreography.Coordinator
variable {H : Type} [Handle H] {c : Coordinator H}

/-- A widget that declares the same events however often it is computed, and finds these. -/
structure Faithful (w : H) : Prop where
  steady : ∀ w', Descends w w' → ∀ event, event ∈ declares w' ↔ event ∈ declares w
  finds : ∀ w', Descends w w' → ∀ ticks event,
    event ∈ (Handle.compute w' ticks).value.2.map SyncEvent.name ↔ event ∈ declares w

theorem Faithful.descends {w w' : H} (h : Faithful w) (hw : Descends w w') : Faithful w' where
  steady v hv event := (h.steady v (hw.trans hv) event).trans (h.steady w' hw event).symm
  finds v hv ticks event := (h.finds v (hw.trans hv) ticks event).trans (h.steady w' hw event).symm

/-- The operations of the histories here: widgets are registered under new names, and only
registered ones are updated. -/
def Admits (c : Coordinator H) : Operation H → Prop
  | .register id w => c.widgets.contains id = false ∧ Faithful w
  | .update id w => c.widgets.contains id = true ∧ Faithful w
  | .invalidate _ => True
  | .resolve => True
  | _ => False

/-- Every operation of a history is admitted when it is its turn. -/
def Proper (c : Coordinator H) (ops : List (Operation H)) : Prop :=
  ∀ before op, before ++ [op] <+: ops → (c.operateAll before).Admits op

theorem Proper.nil : c.Proper [] := fun before op h => by
  have hlength := h.length_le
  rw [List.length_append] at hlength
  simp at hlength

theorem Proper.cons {ops : List (Operation H)} {op : Operation H} (hop : c.Admits op)
    (hops : (c.operate op).Proper ops) : c.Proper (op :: ops) := by
  intro before x hx
  cases before with
  | nil =>
    cases (List.cons_prefix_cons.1 hx).1
    exact hop
  | cons first before =>
    obtain ⟨rfl, hrest⟩ := List.cons_prefix_cons.1 hx
    exact hops before x hrest

theorem Proper.before {ops : List (Operation H)} {op : Operation H}
    (h : c.Proper (ops ++ [op])) : c.Proper ops :=
  fun before x hx => h before x (hx.trans (List.prefix_append _ _))

theorem Proper.last {ops : List (Operation H)} {op : Operation H}
    (h : c.Proper (ops ++ [op])) : (c.operateAll ops).Admits op := h ops op (List.prefix_refl _)

/-- The operation makes a widget that declares an event the owner of it if it has none. -/
def Grants (c : Coordinator H) (event : String) : Operation H → Prop
  | .register _ w => event ∈ declares w
  | .update _ w => event ∈ declares w
  | .resolve => ∃ id ∈ c.unresolved, ∃ w, c.widgets.find? id = some w ∧ event ∈ declares w
  | _ => False

/-- An update has replaced the owner of an event by a widget that does not declare it, and since
then no operation has granted the event to any widget. -/
def Lost (c : Coordinator H) (event : String) (ops : List (Operation H)) : Prop :=
  Since
    (fun before op => ∃ id w, op = .update id w ∧ (c.operateAll before).eventOwner event = some id ∧
      event ∉ declares w)
    (fun before op => (c.operateAll before).Grants event op) ops

theorem lost_concat {event : String} {ops : List (Operation H)} {op : Operation H} :
    c.Lost event (ops ++ [op]) ↔
      (∃ id w, op = .update id w ∧ (c.operateAll ops).eventOwner event = some id ∧
        event ∉ declares w) ∨ (c.Lost event ops ∧ ¬ (c.operateAll ops).Grants event op) :=
  since_concat

/-! ### Owners declare their events -/

/-- All widgets are faithful, and the owner of an event is one that declares it. -/
structure Attested (c : Coordinator H) : Prop where
  faithful : ∀ id w, c.widgets.find? id = some w → Faithful w
  owner : ∀ event id, c.eventOwner event = some id →
    ∃ w, c.widgets.find? id = some w ∧ event ∈ declares w

theorem attested_empty (settings : CoordinatorSettings) : (empty settings : Coordinator H).Attested :=
  ⟨fun _ _ h => (by cases h), fun _ _ h => (by cases h)⟩

theorem Attested.register (h : c.Attested) {id : String} {w : H}
    (hid : c.widgets.contains id = false) (hw : Faithful w) : (c.register id w).value.Attested where
  faithful other v hv := by
    rw [find?_widgets_register] at hv
    split at hv
    · cases hv
      exact hw
    · exact h.faithful other v hv
  owner event other ho := by
    rw [eventOwner_register] at ho
    rw [find?_widgets_register]
    split at ho
    · rename_i hdeclares
      cases ho
      exact ⟨w, by rw [if_pos rfl], hdeclares⟩
    · obtain ⟨v, hv, hdeclares⟩ := h.owner event other ho
      have hne : other ≠ id := by
        rintro rfl
        rw [Table.contains, hv] at hid
        cases hid
      exact ⟨v, by rw [if_neg hne, hv], hdeclares⟩

theorem Attested.update (h : c.Attested) {id : String} {w : H}
    (hid : c.widgets.contains id = true) (hw : Faithful w) :
    (c.operate (.update id w)).Attested where
  faithful other v hv := by
    rw [find?_widgets_update hid] at hv
    split at hv
    · cases hv
      exact hw
    · exact h.faithful other v hv
  owner event other ho := by
    rw [eventOwner_update hid] at ho
    rw [find?_widgets_update hid]
    split at ho
    · rename_i hdeclares
      cases ho
      exact ⟨w, by rw [if_pos rfl], hdeclares⟩
    · obtain ⟨hbefore, hne⟩ := Option.filter_eq_some_iff.1 ho
      obtain ⟨v, hv, hdeclares⟩ := h.owner event other hbefore
      exact ⟨v, by rw [if_neg (bne_iff_ne.1 hne), hv], hdeclares⟩

theorem Attested.compute (h : c.Attested) {id : String} {w : H}
    (hw : c.widgets.find? id = some w) : (c.compute id).value.Attested := by
  have hfaithful := h.faithful id w hw
  have hcomputed := descends_compute w c.ticks
  refine ⟨fun other v hv => ?_, fun event other ho => ?_⟩
  · rw [find?_widgets_compute hw] at hv
    split at hv
    · cases hv
      exact hfaithful.descends hcomputed
    · exact h.faithful other v hv
  · rw [find?_widgets_compute hw]
    rw [eventOwner_compute_eq hw, Option.or_eq_some_iff] at ho
    rcases ho with ho | ⟨-, ho⟩
    · obtain ⟨v, hv, hdeclares⟩ := h.owner event other ho
      split
      · rename_i hid
        rw [hid, hw] at hv
        cases hv
        exact ⟨_, rfl, (hfaithful.steady _ hcomputed event).2 hdeclares⟩
      · exact ⟨v, hv, hdeclares⟩
    · split at ho
      · rename_i hfound
        cases ho
        have hdeclares := (hfaithful.finds w .refl c.ticks event).1 hfound
        exact ⟨_, if_pos rfl, (hfaithful.steady _ hcomputed event).2 hdeclares⟩
      · cases ho

theorem Attested.resolve (h : c.Attested) : c.resolve.value.1.Attested := by
  rw [resolve_eq_afterEach]
  exact kept_afterEach (fun c _ _ _ hw hc => hc.compute hw) h

theorem Attested.operate (h : c.Attested) {op : Operation H} (hop : c.Admits op) :
    (c.operate op).Attested := by
  cases op with
  | register id w => exact h.register hop.1 hop.2
  | update id w => exact h.update hop.1 hop.2
  | invalidate id => exact ⟨h.faithful, h.owner⟩
  | resolve => exact h.resolve
  | _ => cases hop

/-! ### Events without an owner -/

theorem afterEach_append (c : Coordinator H) (ids more : List String) :
    c.afterEach (ids ++ more) = (c.afterEach ids).afterEach more := List.foldl_append

theorem eventOwner_afterEach_of_some {event owner : String} (ho : c.eventOwner event = some owner)
    (ids : List String) : (c.afterEach ids).eventOwner event = some owner :=
  kept_afterEach (P := fun c : Coordinator H => c.eventOwner event = some owner)
    (fun _ _ _ _ hw h => eventOwner_compute hw h) ho

/-- A computed widget that declares an event leaves it with an owner. -/
theorem eventOwner_resolve_ne_none (h : c.Attested) {event id : String} {w : H}
    (hid : id ∈ c.unresolved) (hw : c.widgets.find? id = some w) (hdeclares : event ∈ declares w) :
    c.resolve.value.1.eventOwner event ≠ none := by
  obtain ⟨before, hbefore⟩ := exists_initial ((mem_computed_resolve_iff c id).2 hid)
  obtain ⟨later, hlater⟩ := hbefore
  have hnodup := nodup_of_initial ⟨later, hlater⟩
  obtain ⟨hbeforeNodup, hnew⟩ := nodup_concat hnodup
  have hinitial : before <+: c.resolve.value.2.computed :=
    ⟨[id] ++ later, by rw [← List.append_assoc, hlater]⟩
  obtain ⟨given, htracks⟩ := exists_tracks_afterEach hbeforeNodup (outdated_of_initial hinitial)
  have hw' : (c.afterEach before).widgets.find? id = some w := by
    rw [htracks.handles id, hw, Option.map_some, if_neg hnew]
  have hfound := ((h.faithful id w hw).finds w .refl (c.afterEach before).ticks event).2 hdeclares
  have hgranted : ∃ owner, (c.afterEach (before ++ [id])).eventOwner event = some owner := by
    rw [afterEach_concat, eventOwner_compute_eq hw', if_pos hfound]
    cases (c.afterEach before).eventOwner event with
    | none => exact ⟨id, rfl⟩
    | some owner => exact ⟨owner, rfl⟩
  obtain ⟨owner, howner⟩ := hgranted
  rw [resolve_eq_afterEach, ← hlater, afterEach_append,
    eventOwner_afterEach_of_some howner later]
  exact Option.some_ne_none owner

/-- A pass leaves an event without an owner exactly if it had none and no widget that the pass
computes declares it. -/
theorem eventOwner_resolve_eq_none_iff (h : c.Attested) (event : String) :
    c.resolve.value.1.eventOwner event = none ↔
      c.eventOwner event = none ∧ ¬ c.Grants event .resolve := by
  constructor
  · intro hnone
    refine ⟨?_, ?_⟩
    · cases ho : c.eventOwner event with
      | none => rfl
      | some owner =>
        rw [resolve_eq_afterEach, eventOwner_afterEach_of_some ho] at hnone
        cases hnone
    · rintro ⟨id, hid, w, hw, hdeclares⟩
      exact eventOwner_resolve_ne_none h hid hw hdeclares hnone
  · rintro ⟨hnone, hnot⟩
    have hsilent : ∀ id ∈ c.resolve.value.2.computed, ∀ w, c.widgets.find? id = some w →
        event ∉ declares w := fun id hid w hw hdeclares =>
      hnot ⟨id, (mem_computed_resolve_iff c id).1 hid, w, hw, hdeclares⟩
    rw [resolve_eq_afterEach]
    generalize c.resolve.value.2.computed = ids at hsilent
    clear hnot
    -- the widgets that are computed stay silent about the event
    refine (kept_afterEach (P := fun c : Coordinator H => c.Attested ∧ c.eventOwner event = none ∧
      ∀ id ∈ ids, ∀ w, c.widgets.find? id = some w → event ∉ declares w)
      (fun c id hid w hw hc => ?_) ⟨h, hnone, hsilent⟩).2.1
    obtain ⟨hattested, hunowned, hquiet⟩ := hc
    have hfaithful := hattested.faithful id w hw
    have hunfound : event ∉ (Handle.compute w c.ticks).value.2.map SyncEvent.name := by
      rw [hfaithful.finds w .refl]
      exact hquiet id hid w hw
    refine ⟨hattested.compute hw, ?_, fun other hother v hv => ?_⟩
    · rw [eventOwner_compute_eq hw, hunowned, if_neg hunfound]
      rfl
    · rw [find?_widgets_compute hw] at hv
      split at hv
      · cases hv
        rw [hfaithful.steady _ (descends_compute w c.ticks)]
        exact hquiet id hid w hw
      · exact hquiet other hother v hv

/-! ### Histories -/

theorem attested_operateAll (settings : CoordinatorSettings) {ops : List (Operation H)}
    (hops : (empty settings).Proper ops) : ((empty settings).operateAll ops).Attested := by
  induction ops using List.reverseRecOn with
  | nil => exact attested_empty settings
  | append_singleton ops op ih =>
    rw [operateAll_concat]
    exact (ih hops.before).operate hops.last

/-- A lost event has no owner, whether or not a widget declares it. -/
theorem eventOwner_of_lost (settings : CoordinatorSettings) {event : String}
    {ops : List (Operation H)} (hops : (empty settings).Proper ops)
    (hlost : (empty settings).Lost event ops) :
    ((empty settings).operateAll ops).eventOwner event = none := by
  induction ops using List.reverseRecOn with
  | nil => exact absurd hlost not_since_nil
  | append_singleton ops op ih =>
    have hattested := attested_operateAll settings hops.before
    have hop := hops.last
    replace ih := ih hops.before
    rw [operateAll_concat]
    rcases lost_concat.1 hlost with ⟨id, w, rfl, ho, hdeclares⟩ | ⟨hlost, hgrants⟩
    · rw [eventOwner_update hop.1, if_neg hdeclares, ho]
      simp
    · have hnone := ih hlost
      cases op with
      | register id w => exact (eventOwner_register _ id w event).trans ((if_neg hgrants).trans hnone)
      | update id w =>
        have hsilent : event ∉ declares w := hgrants
        rw [eventOwner_update hop.1, if_neg hsilent, hnone, Option.filter_none]
      | invalidate id => exact hnone
      | resolve => exact (eventOwner_resolve_eq_none_iff hattested event).2 ⟨hnone, hgrants⟩
      | _ => cases hop

/-- A declared event without an owner has been lost. -/
theorem lost_of_declared (settings : CoordinatorSettings) {event id : String} {w : H}
    {ops : List (Operation H)} (hops : (empty settings).Proper ops)
    (hw : ((empty settings).operateAll ops).widgets.find? id = some w)
    (hdeclares : event ∈ declares w)
    (hnone : ((empty settings).operateAll ops).eventOwner event = none) :
    (empty settings).Lost event ops := by
  induction ops using List.reverseRecOn generalizing w with
  | nil => cases hw
  | append_singleton ops op ih =>
    have hattested := attested_operateAll settings hops.before
    have hop := hops.last
    refine lost_concat.2 ?_
    rw [operateAll_concat] at hw hnone
    cases op with
    | register other v =>
      have hsilent : event ∉ declares v := by
        intro hv
        rw [operate, eventOwner_register, if_pos hv] at hnone
        cases hnone
      rw [operate, eventOwner_register, if_neg hsilent] at hnone
      rw [operate, find?_widgets_register] at hw
      split at hw
      · cases hw
        exact absurd hdeclares hsilent
      · exact .inr ⟨ih hops.before hw hdeclares hnone, hsilent⟩
    | update other v =>
      have hsilent : event ∉ declares v := by
        intro hv
        rw [eventOwner_update hop.1, if_pos hv] at hnone
        cases hnone
      rw [eventOwner_update hop.1, if_neg hsilent] at hnone
      rw [find?_widgets_update hop.1] at hw
      split at hw
      · cases hw
        exact absurd hdeclares hsilent
      · cases ho : ((empty settings).operateAll ops).eventOwner event with
        | none => exact .inr ⟨ih hops.before hw hdeclares ho, hsilent⟩
        | some owner =>
          have howner : owner = other := by
            rw [ho, Option.filter_eq_none_iff] at hnone
            simpa using hnone owner rfl
          exact .inl ⟨other, v, rfl, congrArg some howner, hsilent⟩
    | invalidate other => exact .inr ⟨ih hops.before hw hdeclares hnone, not_false⟩
    | resolve =>
      obtain ⟨hbefore, hgrants⟩ := (eventOwner_resolve_eq_none_iff hattested event).1 hnone
      obtain ⟨ticks, hticks⟩ := find?_widgets_resolve ((empty settings).operateAll ops) id
      obtain ⟨v, hv, rfl⟩ := Option.map_eq_some_iff.1 (hticks.symm.trans hw)
      refine .inr ⟨ih hops.before hv ?_ hbefore, hgrants⟩
      split at hdeclares
      · exact ((hattested.faithful id v hv).steady _ (descends_compute v ticks) event).1 hdeclares
      · exact hdeclares
    | _ => cases hop

/-- In every state that a history leads to, the owner of an event is a registered widget that
declares it. An event that a registered widget declares has such an owner exactly if it has not been
lost: no update has taken it from its owner, or it has been granted to a widget since. -/
theorem declared_owned_iff_not_lost (settings : CoordinatorSettings) {ops : List (Operation H)}
    (hops : (empty settings).Proper ops) {c : Coordinator H}
    (hc : (empty settings).operateAll ops = c) :
    (∀ event owner, c.eventOwner event = some owner →
      ∃ wo, c.widgets.find? owner = some wo ∧ event ∈ declares wo) ∧
    (∀ id w event, c.widgets.find? id = some w → event ∈ declares w →
      ((∃ owner wo, c.eventOwner event = some owner ∧ c.widgets.find? owner = some wo ∧
        event ∈ declares wo) ↔ ¬ (empty settings).Lost event ops)) := by
  subst hc
  have howner := (attested_operateAll settings hops).owner
  refine ⟨howner, fun id w event hw hdeclares => ⟨?_, fun hkept => ?_⟩⟩
  · rintro ⟨owner, wo, ho, -, -⟩ hlost
    rw [eventOwner_of_lost settings hops hlost] at ho
    cases ho
  · cases ho : ((empty settings).operateAll ops).eventOwner event with
    | none => exact absurd (lost_of_declared settings hops hw hdeclares ho) hkept
    | some owner =>
      obtain ⟨wo, hwo, hdeclared⟩ := howner event owner ho
      exact ⟨owner, wo, rfl, hwo, hdeclared⟩

theorem faithful_of_finds {w : FixedWidget} (h : w.finds = w.announces) : Faithful w := by
  have hkept : ∀ w', Descends w w' → w'.announces = w.announces ∧ w'.finds = w.announces := by
    intro w' hw'
    induction hw' with
    | refl => exact ⟨rfl, h⟩
    | tail _ hstep ih =>
      obtain ⟨ticks, rfl⟩ := hstep
      exact ih
  refine ⟨fun w' hw' event => ?_, fun w' hw' ticks event => ?_⟩
  · change event ∈ w'.announces.map _ ↔ event ∈ w.announces.map _
    rw [(hkept w' hw').1]
  · change event ∈ w'.finds.map _ ↔ event ∈ w.announces.map _
    rw [(hkept w' hw').2]

def herald (tick : Nat) : FixedWidget := .of [⟨"e", tick⟩] [] [⟨"e", tick⟩]

def mute : FixedWidget := .of [] [] []

def heralds : List (Operation FixedWidget) :=
  [.register "a" (herald 3), .register "b" (herald 5)]

/-- The pass after the update grants the event to the widget that still declares it, since that one
has not been computed before. -/
theorem declared_owned_iff_not_lost_heralds :
    ∃ owner wo, ((empty {}).operateAll (heralds ++ [.update "b" mute, .resolve])).eventOwner "e" =
        some owner ∧
      ((empty {}).operateAll (heralds ++ [.update "b" mute, .resolve])).widgets.find? owner =
        some wo ∧ "e" ∈ declares wo := by
  have hops : (empty {}).Proper (heralds ++ [.update "b" mute, .resolve]) :=
    .cons ⟨by decide, faithful_of_finds rfl⟩ (.cons ⟨by decide, faithful_of_finds rfl⟩
      (.cons ⟨by decide, faithful_of_finds rfl⟩ (.cons trivial .nil)))
  obtain ⟨-, howned⟩ := declared_owned_iff_not_lost {} hops rfl
  refine (howned "a" _ "e" rfl (by decide)).2 fun hlost => ?_
  have hlast : (empty {}).Lost "e" ((heralds ++ [.update "b" mute]) ++ [.resolve]) := hlost
  rcases lost_concat.1 hlast with ⟨id, w, hupdate, -⟩ | ⟨-, hnot⟩
  · cases hupdate
  · exact hnot ⟨"a", by decide, herald 3, rfl, by decide⟩

/-- An update takes an event away from a widget that still declares it and has been computed. -/
theorem declared_event_without_owner :
    (empty {}).Proper (heralds ++ [.resolve, .update "b" mute]) ∧
    ∃ w, ((empty {}).operateAll (heralds ++ [.resolve, .update "b" mute])).widgets.find? "a" =
        some w ∧ "e" ∈ declares w ∧
      ((empty {}).operateAll (heralds ++ [.resolve, .update "b" mute])).eventOwner "e" =
        none := by
  refine ⟨.cons ⟨by decide, faithful_of_finds rfl⟩ (.cons ⟨by decide, faithful_of_finds rfl⟩
    (.cons trivial (.cons ⟨by decide, faithful_of_finds rfl⟩ .nil))), _, rfl, ?_, ?_⟩
  · decide
  · decide

end Choreography.Coordinator
