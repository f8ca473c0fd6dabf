import Sandfall.World
import Sandfall.Snapshot

/-!
Saving, loading and resetting a world. A save is checked as a whole before anything changes; after a
load or a reset nothing is left of stamps, put-off writes, checksums and sleeping chunks.
-/

namespace Sandfall.World

def save (w : World) : List UInt8 :=
  Snapshot.encode w.width w.height w.scene.random.state w.steps w.seed w.scene.grid.toList

/-- Forgets what depends on earlier contents of the grid. -/
def settle (s : Scene) : Scene :=
  { s with
    pending := .empty
    chunks := s.chunks.clearStamps.resetChecksums.wakeAll
    trace := s.trace.map Trace.clear }

def firstUnknown? (b : RuleBook) (cells : List MaterialId) : Option SaveError :=
  (cells.zipIdx.find? fun (id, _) => !b.isKnown id).map fun (id, i) => .unknownMaterial i id

/-- Chunks for a grid of the given size; those of the right size are kept. -/
def fitChunks (c : Chunks) (width height : Nat) : Chunks :=
  if width = c.width ∧ height = c.height then c else c.resize width height

def restore (w : World) (s : Snapshot) : World :=
  let seed := s.seed.getD w.seed
  let put (scene : Scene) : Scene :=
    settle { scene with
      grid := .ofList s.width s.height s.cells
      chunks := fitChunks scene.chunks s.width s.height
      random := .ofSeed (s.rng.getD seed) }
  { w with scene := put w.scene, seed, steps := s.step.getD 0 }

/-- Reads a save for the world that is the state. -/
def readSave (bytes : List UInt8) : EStateM SaveError World Snapshot := do
  let s ← match Snapshot.decode bytes with
    | .ok s => pure s
    | .error e => throw e
  let w ← EStateM.get
  match firstUnknown? w.book s.cells with
  | some e => throw e
  | none => return s

/-- Takes over the contents of a save, and its header fields where it has them. -/
def takeOver (s : Snapshot) : EStateM SaveError World Unit := do
  modify fun w => { w with scene.chunks := fitChunks w.scene.chunks s.width s.height }
  modify fun w => { w with scene.grid := .ofList s.width s.height s.cells }
  modify fun w => { w with seed := s.seed.getD w.seed }
  modify fun w => { w with scene.random := .ofSeed (s.rng.getD w.seed) }
  modify fun w => { w with steps := s.step.getD 0 }
  modify fun w => { w with scene := settle w.scene }

def loadHere (bytes : List UInt8) : EStateM SaveError World Unit := do
  takeOver (← readSave bytes)

def load (w : World) (bytes : List UInt8) : Except SaveError World :=
  match (loadHere bytes).run w with
  | .ok _ w => .ok w
  | .error e _ => .error e

/-- The world as a load leaves it, whether or not it fails. -/
def afterLoad (w : World) (bytes : List UInt8) : World :=
  match (loadHere bytes).run w with
  | .ok _ w => w
  | .error _ w => w

def reset (w : World) (seed : UInt32) : World :=
  let wipe (s : Scene) : Scene :=
    settle { s with grid := s.grid.clear, random := .ofSeed seed }
  { w with scene := wipe w.scene, seed, steps := 0 }

end Sandfall.World
