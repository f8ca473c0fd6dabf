import Sandfall.Firing
import Sandfall.Handler

/-!
One pass over the grid: rows from the top when rising and from the bottom when falling, each in a
drawn direction. Sleeping chunks are skipped, and the put-off writes of the pass land at its end.
-/

namespace Sandfall.Scan

def visitCell (b : RuleBook) (hs : Handlers) (pass : Pass) (y : Nat) (s : Scene) (x : Nat) :
    Scene :=
  let i := s.grid.index x y
  let id := s.grid.cell i
  if id = MaterialId.empty ∨ s.isStamped i then s
  else if b.isSpecial id then
    match pass, hs.get id with
    | .falling, some h => (h.update b ⟨x, y, id⟩ s).countHandled
    | _, _ => s
  else (runCell b pass x y s).2

/-- A list or its reverse. -/
def directed {α : Type} (forward : Bool) (l : List α) : List α := if forward then l else l.reverse

/-- The columns of the cells in a column of chunks. -/
def columns (width cx : Nat) : List Nat :=
  List.range' (cx * Chunks.edge) (min (cx * Chunks.edge + Chunks.edge) width - cx * Chunks.edge)

/-- The part of a row that lies in one chunk, if the chunk is active when it is reached. -/
def visitChunk (b : RuleBook) (hs : Handlers) (pass : Pass) (y : Nat) (right : Bool) (s : Scene)
    (cx : Nat) : Scene :=
  if s.chunks.isActive (s.chunks.indexOf cx (y / Chunks.edge)) then
    (directed right (columns s.grid.width cx)).foldl (visitCell b hs pass y) s
  else s

def visitRow (b : RuleBook) (hs : Handlers) (pass : Pass) (s : Scene) (y : Nat) : Scene :=
  let (right, s) := s.chance .half
  (directed right (List.range s.chunks.across)).foldl (visitChunk b hs pass y right) s

/-- Rows in the order of the pass. -/
def rowOrder (pass : Pass) (height : Nat) : List Nat :=
  directed (pass = .rising) (List.range height)

/-- Counts the cells written by a flush. -/
def countWritten (r : Nat × Scene) : Scene :=
  let (n, s) := r
  { s with tally := { s.tally with written := s.tally.written + n } }

def runPass (b : RuleBook) (hs : Handlers) (pass : Pass) (s : Scene) : Scene :=
  let s := s.beginPass
  let s := (rowOrder pass s.grid.height).foldl (visitRow b hs pass) s
  countWritten s.flushPass

end Sandfall.Scan
