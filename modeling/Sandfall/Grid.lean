import Sandfall.Material
import Sandfall.Checksum

/-!
The grid of cells, row by row from the top. A look outside finds the material `outside`.
-/

namespace Sandfall

structure Grid where
  width : Nat
  height : Nat
  cells : Vector MaterialId (width * height)

namespace Grid

def blank (width height : Nat) : Grid := ⟨width, height, Vector.replicate _ MaterialId.empty⟩

instance : Inhabited Grid := ⟨blank 0 0⟩

def size (g : Grid) : Nat := g.width * g.height

def inBounds (g : Grid) (x y : Int) : Bool :=
  0 ≤ x && x < g.width && 0 ≤ y && y < g.height

def index (g : Grid) (x y : Nat) : Nat := y * g.width + x

/-- Column and row of an index; the row is kept as a word. -/
def coords (g : Grid) (i : Nat) : Nat × Nat := (i % g.width, i / g.width % UInt32.size)

def cell (g : Grid) (i : Nat) : MaterialId := g.cells[i]?.getD MaterialId.outside

def get (g : Grid) (x y : Int) : MaterialId :=
  if g.inBounds x y then g.cell (g.index x.toNat y.toNat) else MaterialId.outside

def set (g : Grid) (i : Nat) (id : MaterialId) : Grid :=
  { g with cells := g.cells.setIfInBounds i id }

def clear (g : Grid) : Grid := blank g.width g.height

/-- The grid with the given cells; missing ones are empty. -/
def ofList (width height : Nat) (cells : List MaterialId) : Grid :=
  let cells := cells.toArray
  ⟨width, height, Vector.ofFn fun i => cells.getD i.val MaterialId.empty⟩

def toList (g : Grid) : List MaterialId := g.cells.toList

def nonEmpty (g : Grid) : Nat :=
  g.cells.foldl (fun n id => if id = MaterialId.empty then n else n + 1) 0

def count (g : Grid) (id : MaterialId) : Nat :=
  g.cells.foldl (fun n c => if c = id then n + 1 else n) 0

def checksum (g : Grid) : UInt32 := g.cells.foldl Checksum.mix Checksum.start

def row (g : Grid) (y : Nat) : List MaterialId :=
  (List.range g.width).map fun x => g.cell (g.index x y)

def rows (g : Grid) : List (List MaterialId) := (List.range g.height).map g.row

end Grid

end Sandfall
