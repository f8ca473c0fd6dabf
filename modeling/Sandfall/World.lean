import Sandfall.RuleBook
import Sandfall.Handler
import Sandfall.Chunks.Rects
import Sandfall.World.Config

/-!
A world: a rule book, the handlers bound to its special materials and a scene, with the counters of
the last step. Whoever owns it paints, clears and watches it through these functions.
-/

namespace Sandfall

/-- The counters of one step. -/
structure Perf where
  visited : Nat := 0
  attempted : Nat := 0
  fired : Nat := 0
  handled : Nat := 0
  written : Nat := 0
  active : Nat := 0
  woken : Nat := 0
  slept : Nat := 0
  nonEmpty : Nat := 0
  step : UInt32 := 0
deriving DecidableEq

structure World where
  book : RuleBook
  handlers : Handlers
  scene : Scene
  seed : UInt32
  steps : UInt32
  perfEnabled : Bool
  perf : Perf

namespace World

def create (config : Config) (book : RuleBook) : Except ConfigError World :=
  match config.check with
  | some e => .error e
  | none => .ok {
      book
      handlers := .none
      scene := .fresh config.width.toNat config.height.toNat config.chunkSleeping config.seed
      seed := config.seed
      steps := 0
      perfEnabled := false
      perf := {} }

def width (w : World) : Nat := w.scene.grid.width

def height (w : World) : Nat := w.scene.grid.height

/-- Binds a handler to all materials with a key. -/
def bind (w : World) (key : String) (h : Handler) : World :=
  { w with handlers := w.handlers.bind w.book key h }

def get (w : World) (x y : Int) : MaterialId := w.scene.grid.get x y

/-- Writes one cell; a place outside the grid or an unknown material is ignored. -/
def set (w : World) (x y : Int) (id : MaterialId) : Bool × World :=
  let (done, scene) := w.scene.place w.book x y id
  (done, { w with scene })

/-- The places along a side that lie within a radius of a centre, and their distances from it. These
are words: a place beyond their end is near again. -/
def discReach (side : Nat) (centre radius : Int32) : List (Nat × Int32) :=
  ((List.range side).map fun p => (p, Int32.ofNat p - centre)).filter fun (_, d) =>
    -radius ≤ d && d ≤ radius

/-- The places of the grid within a radius of a centre, row by row. Squares and sums are words,
too. -/
def discCells (g : Grid) (cx cy radius : Int32) : List (Nat × Nat) :=
  let columns := discReach g.width cx radius
  (discReach g.height cy radius).flatMap fun (y, dy) =>
    (columns.filter fun (_, dx) => dx * dx + dy * dy ≤ radius * radius).map fun (x, _) => (x, y)

/-- Paints a disc and counts its cells. The chunks it meets are woken together at the end. -/
def fillDisc (w : World) (cx cy radius : Int32) (id : MaterialId) : Nat × World :=
  if radius < 0 || !w.book.isKnown id then (0, w)
  else
    let cells := discCells w.scene.grid cx cy radius
    let paint (s : Scene) : Scene :=
      { s with
        grid := cells.foldl (fun g (x, y) => g.set (g.index x y) id) s.grid
        chunks := if cells.isEmpty then s.chunks else s.chunks.wakeDisc cx cy radius }
    (cells.length, { w with scene := paint w.scene })

def clear (w : World) : World :=
  let wipe (s : Scene) : Scene :=
    { s with grid := s.grid.clear, pending := .empty, chunks := s.chunks.clearStamps.wakeAll }
  { w with scene := wipe w.scene }

def setSleeping (w : World) (enabled : Bool) : World :=
  { w with scene := { w.scene with chunks := w.scene.chunks.setSleepingEnabled enabled } }

/-- Counters are kept while enabled and forgotten when not. -/
def enablePerf (w : World) (enabled : Bool) : World :=
  { w with perfEnabled := enabled, perf := if enabled then w.perf else {} }

def enableTrace (w : World) (enabled : Bool) : World :=
  let trace :=
    if enabled then some (w.scene.trace.getD .empty) else none
  { w with scene := { w.scene with trace } }

/-- The answers that the host's handlers have got since they were last asked for. -/
def takeNotes (w : World) : Array Note × World :=
  (w.scene.notes, { w with scene := { w.scene with notes := #[] } })

/-- The chunks to draw again, after which none is marked. -/
def collectDirty (w : World) : List Chunks.Rect × World :=
  (w.scene.chunks.dirtyRects,
    { w with scene := { w.scene with chunks := w.scene.chunks.clearDirty } })

end World

end Sandfall
