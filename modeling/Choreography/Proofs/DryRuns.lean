import Choreography.Extraction
import Choreography.Proofs.CallGraph
import Choreography.Proofs.Tables
import Mathlib.Data.List.Perm.Subperm

/-! # What a dry run finds

A visit only adds to what has been found. As long as no sequence is defined, it finds the events of
every statement that nesting and calls lead to: a call of a sequence that is being expanded leads
to nothing that is not visited anyway. -/
namespace Choreography
namespace DryRun

structure Grows (d d' : DryRun) : Prop where
  events : d.events.toList <+: d'.events.toList
  waits : ∀ event, d.waits.contains event = true → d'.waits.contains event = true
  expanding : d'.expanding = d.expanding

namespace Grows

theorem refl (d : DryRun) : Grows d d := ⟨List.prefix_refl _, fun _ => id, rfl⟩

theorem trans {d₁ d₂ d₃ : DryRun} (h₁ : Grows d₁ d₂) (h₂ : Grows d₂ d₃) : Grows d₁ d₃ where
  events := h₁.events.trans h₂.events
  waits event h := h₂.waits event (h₁.waits event h)
  expanding := h₂.expanding.trans h₁.expanding

theorem announce (d : DryRun) (event : String) : Grows d (d.announce event) := by
  refine ⟨?_, fun _ => id, rfl⟩
  simp [DryRun.announce]

theorem await (d : DryRun) (event : String) : Grows d (d.await event) where
  events := List.prefix_refl _
  waits _ h := (Table.contains_add ..).mpr (.inr h)
  expanding := rfl

end Grows

section
variable {expand : Block → DryRun → DryRun}

theorem grows_call (hexpand : ∀ body d, Grows d (expand body d)) (name : String) (d : DryRun) :
    Grows d (visitStatement expand (.call name) d) := by
  simp only [visitStatement]
  split
  · exact Grows.refl d
  · rename_i body _
    split
    · exact Grows.refl d
    · have hbody := hexpand body { d with expanding := name :: d.expanding }
      exact ⟨hbody.events, hbody.waits, rfl⟩

mutual

theorem grows_visitStatement (hexpand : ∀ body d, Grows d (expand body d)) (s : Statement)
    (d : DryRun) : Grows d (visitStatement expand s d) := by
  cases s with
  | sync event => exact Grows.announce d event
  | waitFor event maxTicks => exact Grows.await d event
  | loop count body => exact grows_visitBlock hexpand body d
  | segment name body => exact grows_visitBlock hexpand body d
  | conditional branches otherwise =>
    exact (grows_visitBranches hexpand branches d).trans (grows_visitBlock hexpand otherwise _)
  | call name => exact grows_call hexpand name d
  | _ => exact ⟨List.prefix_refl _, fun _ => id, rfl⟩

theorem grows_visitBlock (hexpand : ∀ body d, Grows d (expand body d)) (block : List Statement)
    (d : DryRun) : Grows d (visitBlock expand block d) := by
  cases block with
  | nil => exact Grows.refl d
  | cons s rest =>
    exact (grows_visitStatement hexpand s d).trans (grows_visitBlock hexpand rest _)

theorem grows_visitBranches (hexpand : ∀ body d, Grows d (expand body d)) (branches : List Branch)
    (d : DryRun) : Grows d (visitBranches expand branches d) := by
  cases branches with
  | nil => exact Grows.refl d
  | cons b rest =>
    obtain ⟨condition, body⟩ := b
    exact (grows_visitBlock hexpand body d).trans (grows_visitBranches hexpand rest _)

end

end

/-- How the body of a called sequence is visited when calls may nest up to a depth. -/
def expandAt : Nat → Block → DryRun → DryRun
  | 0 => fun _ d => d
  | depth + 1 => visit depth

theorem visit_eq (depth : Nat) : visit depth = visitBlock (expandAt depth) := by
  cases depth <;> rfl

theorem grows_expandAt (depth : Nat) (body : Block) (d : DryRun) :
    Grows d (expandAt depth body d) := by
  induction depth generalizing body d with
  | zero => exact Grows.refl d
  | succ depth ih =>
    rw [expandAt, visit_eq]
    exact grows_visitBlock ih body d

end DryRun

namespace Statement

/-- The blocks in a statement that run in its place. -/
def blocks : Statement → List Block
  | .loop _ body => [body]
  | .conditional branches otherwise => arms branches otherwise
  | .segment _ body => [body]
  | _ => []

/-- One statement leads to another one inside it or, by a call, in the body of a sequence that is
not being expanded. -/
inductive Leads (sequences : Table Block) (expanding : List String) : Statement → Statement → Prop
  | inside {s t : Statement} {block : Block} (hblock : block ∈ s.blocks) (ht : t ∈ block) :
      Leads sequences expanding s t
  | call {name : String} {body : Block} {t : Statement} (hname : name ∉ expanding)
      (hbody : sequences.find? name = some body) (ht : t ∈ body) :
      Leads sequences expanding (.call name) t

def Reached (sequences : Table Block) (expanding : List String) (block : Block) (t : Statement) :
    Prop :=
  ∃ s ∈ block, Relation.ReflTransGen (Leads sequences expanding) s t

variable {sequences : Table Block} {expanding : List String}

theorem eq_or_reached {s t : Statement}
    (h : Relation.ReflTransGen (Leads sequences expanding) s t) :
    t = s ∨ (∃ block ∈ s.blocks, Reached sequences expanding block t) ∨
      ∃ name body, s = .call name ∧ name ∉ expanding ∧ sequences.find? name = some body ∧
        Reached sequences expanding body t := by
  rcases h.cases_head with rfl | ⟨u, hlead, hpath⟩
  · exact .inl rfl
  · cases hlead with
    | inside hblock ht => exact .inr (.inl ⟨_, hblock, u, ht, hpath⟩)
    | call hname hbody ht => exact .inr (.inr ⟨_, _, rfl, hname, hbody, u, ht, hpath⟩)

/-- While a sequence is expanded, its calls of itself lead to nothing new: after the last of them,
the way goes on from its body. -/
theorem Reached.again {name : String} {body : Block} {t : Statement}
    (hbody : sequences.find? name = some body) (h : Reached sequences expanding body t) :
    Reached sequences (name :: expanding) body t := by
  obtain ⟨s, hs, hpath⟩ := h
  induction hpath with
  | refl => exact ⟨s, hs, .refl⟩
  | @tail u t _ hlead ih =>
    obtain ⟨first, hfirst, hway⟩ := ih
    cases hlead with
    | inside hblock ht => exact ⟨first, hfirst, hway.tail (.inside hblock ht)⟩
    | @call other otherBody _ hother hfound ht =>
      by_cases heq : other = name
      · subst heq
        rw [hbody, Option.some.injEq] at hfound
        subst hfound
        exact ⟨t, ht, .refl⟩
      · exact ⟨first, hfirst, hway.tail (.call (by simp [heq, hother]) hfound ht)⟩

end Statement

namespace DryRun
open Statement

def Finds (d : DryRun) : Statement → Prop
  | .sync event => event ∈ d.events.toList.map SyncEvent.name
  | .waitFor event _ => d.waits.contains event = true
  | _ => True

theorem Grows.finds {d d' : DryRun} (h : Grows d d') {s : Statement} (hs : d.Finds s) :
    d'.Finds s := by
  cases s with
  | sync event => exact (h.events.map SyncEvent.name).subset hs
  | waitFor event maxTicks => exact h.waits event hs
  | _ => trivial

structure Covers (d d' : DryRun) (P : Statement → Prop) : Prop where
  grows : Grows d d'
  sequences : d'.sequences = d.sequences
  finds : ∀ s, P s → d'.Finds s

theorem Covers.trans {d₁ d₂ d₃ : DryRun} {P Q : Statement → Prop} (h₁ : Covers d₁ d₂ P)
    (h₂ : Covers d₂ d₃ Q) : Covers d₁ d₃ fun s => P s ∨ Q s where
  grows := h₁.grows.trans h₂.grows
  sequences := h₂.sequences.trans h₁.sequences
  finds s := by
    rintro (hs | hs)
    · exact h₂.grows.finds (h₁.finds s hs)
    · exact h₂.finds s hs

theorem Covers.mono {d d' : DryRun} {P Q : Statement → Prop} (h : Covers d d' P)
    (hPQ : ∀ s, Q s → P s) : Covers d d' Q :=
  ⟨h.grows, h.sequences, fun s hs => h.finds s (hPQ s hs)⟩

/-- A visit covers what a statement leads to if it covers what its blocks lead to. -/
theorem Covers.of_blocks {d d' : DryRun} {s : Statement} (hcall : ∀ name, s ≠ .call name)
    (hs : d'.Finds s)
    (h : Covers d d' fun t => ∃ block ∈ s.blocks, Reached d.sequences d.expanding block t) :
    Covers d d' (Relation.ReflTransGen (Leads d.sequences d.expanding) s) := by
  refine ⟨h.grows, h.sequences, fun t ht => ?_⟩
  rcases eq_or_reached ht with rfl | hinside | ⟨name, body, rfl, -⟩
  · exact hs
  · exact h.finds t hinside
  · exact absurd rfl (hcall name)

theorem Covers.of_leaf {d d' : DryRun} {s : Statement} (hcall : ∀ name, s ≠ .call name)
    (hblocks : s.blocks = []) (hs : d'.Finds s) (hgrows : Grows d d')
    (hsequences : d'.sequences = d.sequences) :
    Covers d d' (Relation.ReflTransGen (Leads d.sequences d.expanding) s) := by
  refine .of_blocks hcall hs ⟨hgrows, hsequences, ?_⟩
  rintro t ⟨block, hblock, -⟩
  rw [hblocks] at hblock
  cases hblock

/-- Sequences whose bodies define none, with room for all of them to be expanded. -/
structure Ready (depth : Nat) (d : DryRun) : Prop where
  plain : ∀ name body, d.sequences.find? name = some body → blockDefinitionCount body = 0
  nodup : d.expanding.Nodup
  known : d.expanding ⊆ d.sequences.keys
  depth : d.sequences.size ≤ depth + d.expanding.length

theorem Ready.after {depth : Nat} {d d' : DryRun} {P : Statement → Prop} (hd : Ready depth d)
    (h : Covers d d' P) : Ready depth d' := by
  constructor
  · rw [h.sequences]
    exact hd.plain
  · rw [h.grows.expanding]
    exact hd.nodup
  · rw [h.grows.expanding, h.sequences]
    exact hd.known
  · rw [h.grows.expanding, h.sequences]
    exact hd.depth

def begin (d : DryRun) (name : String) : DryRun := { d with expanding := name :: d.expanding }

/-- What a dry run must do with the body of a sequence that is called. -/
def Expands (depth : Nat) (expand : Block → DryRun → DryRun) : Prop :=
  ∀ (d : DryRun) (name : String) (body : Block), Ready depth d →
    d.sequences.find? name = some body → name ∉ d.expanding →
    Covers (d.begin name) (expand body (d.begin name))
      (Reached d.sequences (name :: d.expanding) body)

section
variable {depth : Nat} {expand : Block → DryRun → DryRun}

theorem covers_call (hexpand : Expands depth expand) (name : String) {d : DryRun}
    (hd : Ready depth d) :
    Covers d (visitStatement expand (.call name) d)
      (Relation.ReflTransGen (Leads d.sequences d.expanding) (.call name)) := by
  -- Unless the call leads to a body, nothing but the call itself has to be found.
  have hstay : (∀ body, d.sequences.find? name = some body → name ∈ d.expanding) →
      Covers d d (Relation.ReflTransGen (Leads d.sequences d.expanding) (.call name)) := by
    intro hnone
    refine ⟨Grows.refl d, rfl, fun t ht => ?_⟩
    rcases eq_or_reached ht with rfl | ⟨block, hblock, -⟩ | ⟨_, body, hsame, hname, hbody, -⟩
    · trivial
    · cases hblock
    · cases hsame
      exact absurd (hnone body hbody) hname
  simp only [visitStatement]
  split
  · rename_i hnone
    refine hstay fun body hbody => ?_
    rw [hnone] at hbody
    cases hbody
  · rename_i body hbody
    split
    · rename_i hexpanding
      exact hstay fun _ _ => List.contains_iff_mem.mp hexpanding
    · rename_i hexpanding
      have hname : name ∉ d.expanding := fun h => hexpanding (List.contains_iff_mem.mpr h)
      have hcovers := hexpand d name body hd hbody hname
      refine ⟨⟨hcovers.grows.events, hcovers.grows.waits, rfl⟩, hcovers.sequences, fun t ht => ?_⟩
      rcases eq_or_reached ht with rfl | ⟨block, hblock, -⟩ | ⟨_, body', hsame, -, hbody', hreached⟩
      · trivial
      · cases hblock
      · cases hsame
        rw [hbody, Option.some.injEq] at hbody'
        subst hbody'
        have hfinds := hcovers.finds t (hreached.again hbody)
        -- The name is released, which no kind of statement looks at.
        cases t <;> exact hfinds

-- The recursion is that of the visit. No part changes the sequences, so what the whole leads to is
-- what its parts lead to.
mutual

theorem covers_visitStatement (hexpand : Expands depth expand) (s : Statement) {d : DryRun}
    (hd : Ready depth d) (hs : s.definitionCount = 0) :
    Covers d (visitStatement expand s d)
      (Relation.ReflTransGen (Leads d.sequences d.expanding) s) := by
  cases s with
  | call name => exact covers_call hexpand name hd
  | define name body =>
    rw [definitionCount] at hs
    omega
  | loop count body =>
    have hbody := covers_visitBlock hexpand body hd hs
    refine .of_blocks nofun trivial (hbody.mono ?_)
    rintro t ⟨block, hblock, ht⟩
    rwa [List.mem_singleton.mp hblock] at ht
  | segment name body =>
    have hbody := covers_visitBlock hexpand body hd hs
    refine .of_blocks nofun trivial (hbody.mono ?_)
    rintro t ⟨block, hblock, ht⟩
    rwa [List.mem_singleton.mp hblock] at ht
  | conditional branches otherwise =>
    rw [definitionCount] at hs
    have hbranches := covers_visitBranches hexpand branches hd (by omega)
    have hotherwise := covers_visitBlock hexpand otherwise (hd.after hbranches) (by omega)
    rw [hbranches.sequences, hbranches.grows.expanding] at hotherwise
    refine .of_blocks nofun trivial ((hbranches.trans hotherwise).mono ?_)
    rintro t ⟨block, hblock, ht⟩
    rcases List.mem_append.mp hblock with hblock | hblock
    · obtain ⟨b, hb, rfl⟩ := List.mem_map.mp hblock
      exact .inl ⟨b, hb, ht⟩
    · rw [List.mem_singleton.mp hblock] at ht
      exact .inr ht
  | sync event =>
    refine .of_leaf nofun rfl ?_ (Grows.announce d event) rfl
    simp [Finds, visitStatement, announce]
  | waitFor event maxTicks =>
    refine .of_leaf nofun rfl ?_ (Grows.await d event) rfl
    exact (Table.contains_add ..).mpr (.inl rfl)
  | _ => exact .of_leaf nofun rfl trivial ⟨List.prefix_refl _, fun _ => id, rfl⟩ rfl

theorem covers_visitBlock (hexpand : Expands depth expand) (block : List Statement) {d : DryRun}
    (hd : Ready depth d) (hblock : blockDefinitionCount block = 0) :
    Covers d (visitBlock expand block d) (Reached d.sequences d.expanding block) := by
  cases block with
  | nil =>
    refine ⟨Grows.refl d, rfl, ?_⟩
    rintro t ⟨s, hs, -⟩
    cases hs
  | cons s rest =>
    rw [blockDefinitionCount] at hblock
    have hfirst := covers_visitStatement hexpand s hd (by omega)
    have hrest := covers_visitBlock hexpand rest (hd.after hfirst) (by omega)
    rw [hfirst.sequences, hfirst.grows.expanding] at hrest
    refine (hfirst.trans hrest).mono ?_
    rintro t ⟨u, hu, ht⟩
    rcases List.mem_cons.mp hu with rfl | hu
    · exact .inl ht
    · exact .inr ⟨u, hu, ht⟩

theorem covers_visitBranches (hexpand : Expands depth expand) (branches : List Branch) {d : DryRun}
    (hd : Ready depth d) (hbranches : branchDefinitionCount branches = 0) :
    Covers d (visitBranches expand branches d)
      fun t => ∃ b ∈ branches, Reached d.sequences d.expanding b.body t := by
  cases branches with
  | nil =>
    refine ⟨Grows.refl d, rfl, ?_⟩
    rintro t ⟨b, hb, -⟩
    cases hb
  | cons b rest =>
    obtain ⟨condition, body⟩ := b
    rw [branchDefinitionCount] at hbranches
    have hfirst := covers_visitBlock hexpand body hd (by omega)
    have hrest := covers_visitBranches hexpand rest (hd.after hfirst) (by omega)
    rw [hfirst.sequences, hfirst.grows.expanding] at hrest
    refine (hfirst.trans hrest).mono ?_
    rintro t ⟨c, hc, ht⟩
    rcases List.mem_cons.mp hc with rfl | hc
    · exact .inl ht
    · exact .inr ⟨c, hc, ht⟩

end

end

/-- One sequence more is being expanded, so one level less is needed. -/
theorem Ready.begin {depth : Nat} {d : DryRun} {name : String} {body : Block} (hd : Ready depth d)
    (hbody : d.sequences.find? name = some body) (hname : name ∉ d.expanding) :
    ∃ below, depth = below + 1 ∧ Ready below (d.begin name) := by
  have hknown : name ∈ d.sequences.keys :=
    (Table.mem_keys ..).mpr ((Table.contains_iff ..).mpr ⟨body, hbody⟩)
  have hnodup : (name :: d.expanding).Nodup := List.nodup_cons.mpr ⟨hname, hd.nodup⟩
  have hsubset : name :: d.expanding ⊆ d.sequences.keys :=
    List.cons_subset.mpr ⟨hknown, hd.known⟩
  -- The names that are being expanded are some of the names that are defined.
  have hroom : (name :: d.expanding).length ≤ d.sequences.size := by
    rw [← Table.length_keys]
    exact (hnodup.subperm hsubset).length_le
  have hdepth := hd.depth
  rw [List.length_cons] at hroom
  refine ⟨depth - 1, by omega, hd.plain, hnodup, hsubset, ?_⟩
  change d.sequences.size ≤ depth - 1 + (d.expanding.length + 1)
  omega

theorem expands_expandAt (depth : Nat) : Expands depth (expandAt depth) := by
  induction depth with
  | zero =>
    intro d name body hd hbody hname
    obtain ⟨below, hbelow, -⟩ := hd.begin hbody hname
    omega
  | succ depth ih =>
    intro d name body hd hbody hname
    obtain ⟨below, hbelow, hready⟩ := hd.begin hbody hname
    cases hbelow
    rw [expandAt, visit_eq]
    exact covers_visitBlock ih body hready (hd.plain name body hbody)

end DryRun
end Choreography
