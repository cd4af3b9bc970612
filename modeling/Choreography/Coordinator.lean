import Choreography.Failure
import Choreography.Notice
import Choreography.Quoted
import Choreography.Settings
import Choreography.Table
import Choreography.Timeline

/-! # Coordinating widgets

A coordinator owns the widgets of a scene and computes their timelines in the order of the events
that they announce and wait for. A widget depends on another one if it waits for an event that the
other one owns; events that nobody owns, and its own, never hold it up. -/
namespace Choreography

/-- What the coordinator needs from a widget. -/
class Handle (H : Type) where
  /-- The events that the widget may announce, with estimated ticks. -/
  syncEvents : H → Logged (List SyncEvent)
  /-- The events that the widget waits for. -/
  waitingFor : H → Logged (Table Unit)
  /-- Generates the timeline, given the ticks of all events, and finds its own exact ticks. -/
  compute : H → Table Nat → Logged (H × List SyncEvent)
  /-- Whether there is room to generate the timeline. -/
  hasRoom : H → Bool := fun _ => true

/-- Who announces an event, and when. -/
structure Ownership where
  owner : String
  tick : Nat
deriving DecidableEq, Repr

structure Coordinator (H : Type) where
  widgets : Table H
  events : Table Ownership
  /-- The events that each widget waits for. -/
  waits : Table (Table Unit)
  /-- The widgets whose timelines are up to date. -/
  resolved : Table Unit
  /-- Rounds of resolution for each widget. -/
  factor : Nat
  factor_pos : 0 < factor

/-- What a pass of resolution did: the widgets computed, those among them that were computed
before all that they depend on, and the number of rounds. -/
structure Summary where
  computed : List String
  forced : List String
  iterations : Nat
deriving DecidableEq, Repr, Inhabited

namespace Coordinator
variable {H : Type}

def empty (settings : CoordinatorSettings) : Coordinator H :=
  ⟨∅, ∅, ∅, ∅, max 1 settings.iterationFactor, by omega⟩

/-- Removes every registration. -/
def clear (c : Coordinator H) : Coordinator H :=
  { c with widgets := ∅, events := ∅, waits := ∅, resolved := ∅ }

def registerWidget (c : Coordinator H) (id : String) (h : H) : Coordinator H :=
  { c with widgets := c.widgets.insert id h, resolved := c.resolved.erase id }

/-- The report on an event that changes its owner. -/
def ownershipFaults (c : Coordinator H) (owner event : String) : Array Notice :=
  match c.events.find? event with
  | some known => if known.owner = owner then #[] else #[.contestedEvent event known.owner owner]
  | none => #[]

/-- Makes a widget the owner of an event. -/
def own (c : Coordinator H) (owner event : String) (tick : Nat) : Coordinator H :=
  { c with events := c.events.insert event ⟨owner, tick⟩ }

def registerEvent (c : Coordinator H) (owner event : String) (tick : Nat) :
    Logged (Coordinator H) :=
  ⟨c.own owner event tick, c.ownershipFaults owner event⟩

def waitsOf (c : Coordinator H) (id : String) : Table Unit := (c.waits.find? id).getD ∅

def registerWait (c : Coordinator H) (id event : String) : Coordinator H :=
  { c with waits := c.waits.insert id ((c.waitsOf id).add event) }

/-- The first of the events of each name. -/
def firstEvents (seen : List String) : List SyncEvent → List SyncEvent
  | [] => []
  | e :: rest =>
      if seen.contains e.name then firstEvents seen rest
      else e :: firstEvents (e.name :: seen) rest

def registerEvents (id : String) (c : Coordinator H) : List SyncEvent → Logged (Coordinator H)
  | [] => pure c
  | e :: rest => do
      let c ← c.registerEvent id e.name e.tick
      registerEvents id c rest

def registerWaits (c : Coordinator H) (id : String) (events : List String) : Coordinator H :=
  events.foldl (fun c event => c.registerWait id event) c

/-- Registers a widget with the events that it announces, the earliest of each name, and those
that it waits for. -/
def register [Handle H] (c : Coordinator H) (id : String) (h : H) : Logged (Coordinator H) := do
  let events ← Handle.syncEvents h
  let c ← registerEvents id c (firstEvents [] events)
  let waits ← Handle.waitingFor h
  pure ((c.registerWaits id waits.keys).registerWidget id h)

/-- Registers widgets one after the other. -/
def registerEach [Handle H] (c : Coordinator H) : List (String × H) → Logged (Coordinator H)
  | [] => pure c
  | entry :: rest => do
      let c ← c.register entry.1 entry.2
      c.registerEach rest

def eventTick (c : Coordinator H) (event : String) : Option Nat :=
  (c.events.find? event).map Ownership.tick

def eventOwner (c : Coordinator H) (event : String) : Option String :=
  (c.events.find? event).map Ownership.owner

def isResolved (c : Coordinator H) (id : String) : Bool := c.resolved.contains id

/-- The other registered widget that owns an event, if there is one. -/
def provider? (c : Coordinator H) (id event : String) : Option String :=
  (c.eventOwner event).filter fun owner => owner != id && c.widgets.contains owner

/-- The widgets that a widget depends on, in increasing order. -/
def dependencies (c : Coordinator H) (id : String) : List String :=
  (((c.waitsOf id).keys.filterMap (c.provider? id)).foldl Table.add ∅).keys

/-- The events that are waited for and owned by nobody, and who waits for them. -/
def pending (c : Coordinator H) : Table (Table Unit) :=
  c.waits.entries.foldl (fun t w =>
    w.2.keys.foldl (fun t event =>
      if c.events.contains event then t
      else t.insert event (((t.find? event).getD ∅).add w.1)) t) ∅

/-- Adds the widgets that depend on one of a set. -/
def withDependents (c : Coordinator H) (ids : Table Unit) : Table Unit :=
  (c.waits.keys.filter fun id => (c.dependencies id).any ids.contains).foldl Table.add ids

/-- Adds dependents until nothing changes, or for so many rounds. -/
def dependentClosure (c : Coordinator H) : Nat → Table Unit → Table Unit
  | 0, ids => ids
  | n + 1, ids =>
      let wider := c.withDependents ids
      if wider.size = ids.size then ids else c.dependentClosure n wider

/-- A widget and all that depend on it, directly or through others. -/
def affected (c : Coordinator H) (id : String) : Table Unit :=
  c.dependentClosure c.waits.size (Table.empty.add id)

/-- Marks a widget and all that depend on it as out of date. -/
def invalidate (c : Coordinator H) (id : String) : Coordinator H :=
  let ids := c.affected id
  { c with resolved := c.resolved.filter fun k _ => !ids.contains k }

/-- Removes the events and waits of a widget. -/
def withdraw (c : Coordinator H) (id : String) : Coordinator H :=
  { c with
    events := c.events.filter fun _ o => o.owner != id
    waits := c.waits.erase id }

/-- Replaces a registered widget. What depended on it before and what depends on it now is out of
date. -/
def update [Handle H] (c : Coordinator H) (id : String) (h : H) :
    Except Failure (Logged (Coordinator H)) :=
  if c.widgets.contains id then
    .ok do
      let c ← ((c.invalidate id).withdraw id).register id h
      pure (c.invalidate id)
  else .error (.unknownWidget id)

def unresolved (c : Coordinator H) : List String :=
  c.widgets.keys.filter fun id => !c.isResolved id

/-- Whether all that a widget depends on is up to date. -/
def isReady (c : Coordinator H) (id : String) : Bool := (c.dependencies id).all c.isResolved

/-! ## Cycles -/

/-- What a search from a widget gives: a cycle, or the widgets from which no cycle is reached. -/
abbrev Search := Except (List String) (List String)

/-- The part of a path, latest first, from a widget on. -/
def cycleOn (path : List String) (id : String) : List String :=
  path.reverse.dropWhile (· != id)

/-- Searches on from the widgets that one depends on. -/
def searchAll (c : Coordinator H) (search : String → List String → Search) (path : List String) :
    List String → List String → Search
  | [], finished => .ok finished
  | id :: rest, finished =>
      if c.isResolved id then c.searchAll search path rest finished
      else if path.contains id then .error (cycleOn path id)
      else if finished.contains id then c.searchAll search path rest finished
      else
        match search id finished with
        | .error cycle => .error cycle
        | .ok finished => c.searchAll search path rest finished

/-- Searches depth first along dependencies. The widgets on a path are distinct, so it is no
longer than there are widgets. -/
def search (c : Coordinator H) : Nat → List String → String → List String → Search
  | 0, _, _, finished => .ok finished
  | n + 1, path, id, finished =>
      match c.searchAll (c.search n (id :: path)) (id :: path) (c.dependencies id) finished with
      | .error cycle => .error cycle
      | .ok finished => .ok (id :: finished)

/-- A cycle of dependencies among the widgets that are out of date. -/
def findCycle (c : Coordinator H) : Option (List String) :=
  match c.searchAll (c.search c.widgets.size []) [] c.widgets.keys [] with
  | .error cycle => some cycle
  | .ok _ => none

/-! ## Resolution -/

/-- Writes back the exact ticks of a widget's events; events of other widgets are left alone. -/
def recordTicks (id : String) (events : Table Ownership) (exact : List SyncEvent) :
    Table Ownership :=
  exact.foldl (fun events e =>
    match events.find? e.name with
    | some known => if known.owner = id then events.insert e.name ⟨id, e.tick⟩ else events
    | none => events.insert e.name ⟨id, e.tick⟩) events

/-- Computes the timeline of a widget with the ticks known so far. -/
def compute [Handle H] (c : Coordinator H) (id : String) : Logged (Coordinator H) :=
  match c.widgets.find? id with
  | none => pure c
  | some h => do
      let (h, exact) ← Handle.compute h (c.events.map Ownership.tick)
      pure { c with
        widgets := c.widgets.insert id h
        events := recordTicks id c.events (firstEvents [] exact)
        resolved := c.resolved.add id }

/-- A coordinator in the midst of a pass. -/
structure Pass (H : Type) where
  coordinator : Coordinator H
  summary : Summary

def Pass.compute [Handle H] (p : Pass H) (id : String) : Logged (Pass H) := do
  let c ← p.coordinator.compute id
  pure ⟨c, { p.summary with computed := p.summary.computed ++ [id] }⟩

def Pass.force [Handle H] (p : Pass H) (id : String) : Logged (Pass H) := do
  let p ← p.compute id
  pure { p with summary := { p.summary with forced := p.summary.forced ++ [id] } }

def Pass.computeAll [Handle H] (p : Pass H) : List String → Logged (Pass H)
  | [] => pure p
  | id :: rest => do
      let p ← p.compute id
      p.computeAll rest

def Pass.count (p : Pass H) : Pass H :=
  { p with summary := { p.summary with iterations := p.summary.iterations + 1 } }

/-- The least of some widgets. -/
def least : String → List String → String
  | id, [] => id
  | id, other :: rest => least (if other < id then other else id) rest

/-- The widget to compute when none is ready: the least of a cycle, or the first one. -/
def choose (c : Coordinator H) (first : String) : Logged String :=
  match c.findCycle with
  | some [] => pure first
  | some (id :: rest) => do
      Logged.note (.dependencyCycle (Quoted.list (id :: rest)))
      pure (least id rest)
  | none => do
      Logged.note .stalled
      pure first

/-- One round: computes all widgets that were ready at its start, or forces one. -/
def Pass.round [Handle H] (p : Pass H) (first : String) (rest : List String) : Logged (Pass H) := do
  let ready := (first :: rest).filter p.coordinator.isReady
  if ready.isEmpty then
    let id ← p.coordinator.choose first
    p.count.force id
  else p.count.computeAll ready

def Pass.rounds [Handle H] (p : Pass H) : Nat → Logged (Pass H)
  | 0 => pure p
  | budget + 1 =>
      match p.coordinator.unresolved with
      | [] => pure p
      | first :: rest => do
          let p ← p.round first rest
          p.rounds budget

def Pass.forceAll [Handle H] (p : Pass H) : List String → Logged (Pass H)
  | [] => pure p
  | id :: rest => do
      Logged.note (.budgetExhausted id)
      let p ← p.force id
      p.forceAll rest

/-- The rounds that a pass may take, counted with sixty-four bits. -/
def budget (c : Coordinator H) : Nat := wrapUnsigned 64 (c.factor * max 1 c.widgets.size)

/-- Computes every timeline that is out of date, after those that it depends on where that is
possible. -/
def resolve [Handle H] (c : Coordinator H) : Logged (Coordinator H × Summary) := do
  let p ← (⟨c, ⟨[], [], 0⟩⟩ : Pass H).rounds c.budget
  let p ← p.forceAll p.coordinator.unresolved
  pure (p.coordinator, p.summary)

/-- A pass comes to its end if there is room for every timeline that is out of date. -/
def resolve? [Handle H] (c : Coordinator H) : Option (Logged (Coordinator H × Summary)) :=
  if c.unresolved.all fun id => (c.widgets.find? id).all Handle.hasRoom then some c.resolve
  else none

end Coordinator
end Choreography
