import Choreography.Coordinator
import Choreography.Extraction

/-! # Animated widgets

A widget with its program and the timeline that was generated last. The timeline is kept until the
program or a size changes. -/
namespace Choreography

structure AnimatedWidget where
  performance : Performance
  timeline : Option Timeline

namespace AnimatedWidget

def of (p : Performance) : AnimatedWidget := ⟨p, none⟩

/-- Forgets the timeline. -/
def invalidate (w : AnimatedWidget) : AnimatedWidget := { w with timeline := none }

def setProgram (w : AnimatedWidget) (program : Program) : AnimatedWidget :=
  ⟨{ w.performance with program := program }, none⟩

/-- Changes the sizes; the timeline is forgotten only if one of them differs. -/
def resize (w : AnimatedWidget) (widget container : Size) : AnimatedWidget :=
  if widget = w.performance.widget ∧ container = w.performance.container then w
  else ⟨{ w.performance with widget := widget, container := container }, none⟩

/-- Generates the timeline with the given ticks of events and keeps both. Where smoothing is on it
happens while frames are added, so the ticks of the widget's own events are final. -/
def compute (w : AnimatedWidget) (eventTicks : Table Nat) :
    Logged (AnimatedWidget × List SyncEvent) :=
  let p := { w.performance with eventTicks := eventTicks }
  let g := p.perform none
  ⟨(⟨p, some g.timeline⟩, g.timeline.syncs), g.log⟩

/-- The timeline is generated if there is room for the run. -/
def compute? (w : AnimatedWidget) (eventTicks : Table Nat) :
    Option (Logged (AnimatedWidget × List SyncEvent)) :=
  let p := { w.performance with eventTicks := eventTicks }
  (p.played? none).map fun g => ⟨(⟨p, some g.timeline⟩, g.timeline.syncs), g.log⟩

instance : Handle AnimatedWidget where
  syncEvents w := w.performance.syncEvents
  waitingFor w := w.performance.waitingFor
  compute := compute
  hasRoom w := w.performance.settings.isRunnable

theorem compute?_eq (w : AnimatedWidget) (eventTicks : Table Nat) :
    w.compute? eventTicks = if Handle.hasRoom w then some (w.compute eventTicks) else none := by
  simp only [compute?, Performance.played?, Handle.hasRoom]
  split <;> rfl

end AnimatedWidget
end Choreography
