import Choreography.Timeline

/-! # Smoothing

Frames are put between two neighbours that are more than one pixel apart, so that the widget moves
by at most one pixel on each axis. Pauses are left alone, and so is the arrival at a reset, which
is an instant jump. -/
namespace Choreography.Smoothing

/-- Whether frames belong between two neighbours. -/
def isGap (before after : Frame) : Bool :=
  !before.pause && !after.pause && !after.reset && 1 < before.chebyshev after

/-- The point a part `k` of `steps` on the way between two frames, named as the later one. -/
def between (start finish : Frame) (steps k : Nat) : Frame :=
  { Frame.plain (start.x + ((finish.x - start.x) * k).tdiv steps)
      (start.y + ((finish.y - start.y) * k).tdiv steps) with segment := finish.segment }

/-- The frames strictly between two neighbours, one for each pixel of the longer axis. -/
def bridge (start finish : Frame) : List Frame :=
  let steps := start.chebyshev finish
  (List.range' 1 (steps - 1)).map (between start finish steps)

theorem length_bridge (start finish : Frame) :
    (bridge start finish).length = start.chebyshev finish - 1 := by simp [bridge]

/-- The frames that go before a frame, given the one that it follows. -/
def inserted (before : Option Frame) (f : Frame) : List Frame :=
  match before with
  | some g => if isGap g f then bridge g f else []
  | none => []

/-- Frames smoothed so far, and the new index of each frame of the source. -/
structure Progress where
  frames : Array Frame
  indices : Array Nat

def Progress.extend (p : Progress) (f : Frame) : Progress :=
  let filled := (inserted p.frames.back? f).foldl Array.push p.frames
  ⟨filled.push f, p.indices.push filled.size⟩

def Progress.of (source : Array Frame) : Progress :=
  source.foldl Progress.extend ⟨#[], #[]⟩

/-- The new index of an index of the source; what lies past the source ends with it. -/
def Progress.remap (p : Progress) (i : Nat) : Nat := p.indices.getD i p.frames.size

/-- A timeline without gaps; all that refers to frames by index follows them. -/
def smooth (t : Timeline) : Timeline :=
  let p := Progress.of t.frames
  Timeline.build p.frames (t.period.map p.remap) (p.remap t.loopStart)
    (t.segments.map fun s => { s with start := p.remap s.start, finish := p.remap s.finish })
    (t.syncs.map fun e => { e with tick := p.remap e.tick })

end Choreography.Smoothing
