import Sandfall.Chunks
import Sandfall.Grid
import Sandfall.Random
import Sandfall.Trace

/-!
Everything a rule or a handler may change: the grid with its chunks, the writes put off to the end
of the pass or of the tick, the random source, the trace and the counters.
-/

namespace Sandfall

/-- A write put off, its cells numbered by words. An exchange remembers what its cells held when it
was decided. -/
inductive Write where
  | set (i : UInt32) (id : MaterialId)
  | exchange (source target : UInt32) (moving displaced : MaterialId)
deriving DecidableEq

namespace Write

def ofSet (i : Nat) (id : MaterialId) : Write := .set (UInt32.ofNat i) id

def ofExchange (source target : Nat) (moving displaced : MaterialId) : Write :=
  .exchange (UInt32.ofNat source) (UInt32.ofNat target) moving displaced

end Write

/-- Writes waiting for the end of the pass and of the tick, in the order decided. -/
structure Pending where
  pass : Array Write
  tick : Array Write

namespace Pending

def empty : Pending := ⟨#[], #[]⟩

def size (p : Pending) : Nat := p.pass.size + p.tick.size

def pushPass (p : Pending) (w : Write) : Pending := { p with pass := p.pass.push w }

def pushTick (p : Pending) (w : Write) : Pending := { p with tick := p.tick.push w }

end Pending

structure Tally where
  visited : Nat := 0
  attempted : Nat := 0
  fired : Nat := 0
  handled : Nat := 0
  written : Nat := 0
deriving DecidableEq

/-- What the world has answered to a host's handler. -/
inductive Note where
  | self (x y : Nat) (material : MaterialId)
  | material (id : MaterialId)
  | flag (b : Bool)
  | number (n : Nat)
  | random (x : Binary32)
  | walk (direction : Nat) (moved : Bool)
deriving DecidableEq

structure Scene where
  grid : Grid
  chunks : Chunks
  pending : Pending
  random : Random
  trace : Option Trace
  tally : Tally
  notes : Array Note

namespace Scene

def fresh (width height : Nat) (sleeping : Bool) (seed : UInt32) : Scene where
  grid := .blank width height
  chunks := (Chunks.ofSize width height).setSleepingEnabled sleeping
  pending := .empty
  random := .ofSeed seed
  trace := none
  tally := {}
  notes := #[]

instance : Inhabited Scene := ⟨fresh 0 0 true 0⟩

/-- Writes a cell and touches its chunk. -/
def put (s : Scene) (i : Nat) (id : MaterialId) : Scene :=
  let (x, y) := s.grid.coords i
  { s with grid := s.grid.set i id, chunks := s.chunks.touchCell x y }

/-- Applies a write and counts the cells written. An exchange whose cells have changed since is
dropped. -/
def apply (s : Scene) : Write → Nat × Scene
  | .set i id => (1, s.put i.toNat id)
  | .exchange source target moving displaced =>
    if s.grid.cell source.toNat = moving ∧ s.grid.cell target.toNat = displaced then
      (2, (s.put target.toNat moving).put source.toNat displaced)
    else (0, s)

def applyAll (s : Scene) (ws : List Write) : Nat × Scene :=
  ws.foldl (fun (n, s) w => let (k, s) := s.apply w; (n + k, s)) (0, s)

def flushPass (s : Scene) : Nat × Scene :=
  let ws := s.pending.pass.toList
  applyAll { s with pending := { s.pending with pass := #[] } } ws

def flushTick (s : Scene) : Nat × Scene :=
  let ws := s.pending.tick.toList
  applyAll { s with pending := { s.pending with tick := #[] } } ws

/-- A draw that succeeds with probability `p`. -/
def chance (s : Scene) (p : Binary32) : Bool × Scene :=
  let (b, r) := s.random.chance p
  (b, { s with random := r })

def below (s : Scene) (n : Nat) : Nat × Scene :=
  let (k, r) := s.random.below n
  (k, { s with random := r })

def unit (s : Scene) : Binary32 × Scene :=
  let (x, r) := s.random.unit
  (x, { s with random := r })

def isStamped (s : Scene) (i : Nat) : Bool := s.chunks.isStamped i

def stamp (s : Scene) (i : Nat) : Scene := { s with chunks := s.chunks.stamp i }

def record (s : Scene) (source target : Nat) : Scene :=
  { s with trace := s.trace.map fun t => t.record source target }

def note (s : Scene) (n : Note) : Scene := { s with notes := s.notes.push n }

def countVisited (s : Scene) : Scene :=
  { s with tally := { s.tally with visited := s.tally.visited + 1 } }

def countAttempted (s : Scene) : Scene :=
  { s with tally := { s.tally with attempted := s.tally.attempted + 1 } }

def countFired (s : Scene) : Scene :=
  { s with tally := { s.tally with fired := s.tally.fired + 1 } }

def countHandled (s : Scene) : Scene :=
  { s with tally := { s.tally with handled := s.tally.handled + 1 } }

/-- A pass begins: stamps expire, and the trace counts on. -/
def beginPass (s : Scene) : Scene :=
  { s with chunks := s.chunks.beginPass, trace := s.trace.map Trace.beginPass }

end Scene

end Sandfall
