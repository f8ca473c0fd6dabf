import Sandfall.World
import Sandfall.Scan
import Sandfall.Chunks.Activity

/-!
One tick of a world: a rising and a falling pass, the writes put off to the end of the tick, and the
reckoning of which chunks may sleep.
-/

namespace Sandfall.World

/-- A tick begins with fresh counters. -/
def beginTick (s : Scene) : Scene := { s with chunks := s.chunks.beginTick, tally := {} }

def updateActivity (b : RuleBook) (s : Scene) : Scene :=
  { s with chunks := s.chunks.updateActivity s.grid b.keepsAwake }

def tick (b : RuleBook) (hs : Handlers) (s : Scene) : Scene :=
  let s := beginTick s
  let s := Scan.runPass b hs .rising s
  let s := Scan.runPass b hs .falling s
  updateActivity b (Scan.countWritten s.flushTick)

/-- The counters after a tick. -/
def perfOf (s : Scene) (steps : UInt32) : Perf where
  visited := s.tally.visited
  attempted := s.tally.attempted
  fired := s.tally.fired
  handled := s.tally.handled
  written := s.tally.written
  active := s.chunks.activeCount
  woken := s.chunks.woke.toNat
  slept := s.chunks.slept.toNat
  nonEmpty := s.grid.nonEmpty
  step := steps

def step (w : World) : World :=
  let scene := tick w.book w.handlers w.scene
  let steps := w.steps + 1
  { w with scene, steps, perf := if w.perfEnabled then perfOf scene steps else w.perf }

def stepMany : Nat → World → World
  | 0, w => w
  | n + 1, w => stepMany n w.step

end Sandfall.World
