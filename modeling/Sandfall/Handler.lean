import Sandfall.RuleBook
import Sandfall.Scene

/-!
Handlers of special materials. An emitter drops a material into an empty cell beside it. Any other
handler is the host's own code, and acts on the world only through what it is lent for its turn: its
own cell, reads and writes of cells, draws and the rule book. A script stands for such a handler. It
goes through these accesses one by one, and its notes are the answers that the host's code gets.
-/

namespace Sandfall

namespace Scene

/-- Writes a material the book knows into a cell of the grid; anything else is ignored. -/
def place (s : Scene) (b : RuleBook) (x y : Int) (id : MaterialId) : Bool × Scene :=
  if s.grid.inBounds x y && b.isKnown id then
    (true, s.put (s.grid.index x.toNat y.toNat) id)
  else (false, s)

def isEmptyAt (s : Scene) (x y : Int) : Bool := s.grid.get x y = MaterialId.empty

end Scene

/-- One access of a host's handler to the world; places are relative to its own cell. -/
inductive Action where
  | self
  | get (dx dy : Int)
  | isEmpty (dx dy : Int)
  | set (dx dy : Int) (id : MaterialId)
  | random
  | below (n : Nat)
  | immobile (id : MaterialId)
  | walk
deriving DecidableEq

inductive Handler where
  | emitter (material : MaterialId) (chance : Binary32)
  | script (actions : List Action)
deriving DecidableEq

/-- The cell a handler acts for. -/
structure Post where
  x : Nat
  y : Nat
  material : MaterialId
deriving DecidableEq

namespace Handler

/-- Up, right, down, left. -/
def around (d : Nat) : Int × Int :=
  match d % 4 with
  | 0 => (0, -1)
  | 1 => (1, 0)
  | 2 => (0, 1)
  | _ => (-1, 0)

/-- Right, down, left, up. -/
def heading (d : Nat) : Int × Int := around (d + 1)

/-- Drops a material into the first empty neighbour, beginning with a drawn direction. -/
def emit (b : RuleBook) (p : Post) (material : MaterialId) (chance : Binary32) (s : Scene) :
    Scene :=
  let (x, s) := s.unit
  if chance.le x then s
  else
    let (start, s) := s.below 4
    let places := [0, 1, 2, 3].map fun i =>
      ((p.x : Int) + (around (start + i)).1, (p.y : Int) + (around (start + i)).2)
    match places.find? fun (x, y) => s.isEmptyAt x y with
    | some (x, y) => (s.place b x y material).2
    | none => s

def perform (b : RuleBook) (p : Post) (s : Scene) : Action → Scene
  | .self => s.note (.self p.x p.y p.material)
  | .get dx dy => s.note (.material (s.grid.get (p.x + dx) (p.y + dy)))
  | .isEmpty dx dy => s.note (.flag (s.isEmptyAt (p.x + dx) (p.y + dy)))
  | .set dx dy id =>
    let (done, s) := s.place b (p.x + dx) (p.y + dy) id
    s.note (.flag done)
  | .random =>
    let (x, s) := s.unit
    s.note (.random x)
  | .below n =>
    let (k, s) := s.below n
    s.note (.number k)
  | .immobile id => s.note (.flag (b.isImmobile id))
  | .walk =>
    let (d, s) := s.below 4
    let x := p.x + (heading d).1
    let y := p.y + (heading d).2
    if s.isEmptyAt x y then
      let (_, s) := s.place b x y p.material
      let (_, s) := s.place b p.x p.y MaterialId.empty
      s.note (.walk d true)
    else s.note (.walk d false)

def update (b : RuleBook) (p : Post) (s : Scene) : Handler → Scene
  | .emitter material chance => emit b p material chance s
  | .script actions => actions.foldl (perform b p) s

end Handler

structure Handlers where
  bound : Vector (Option Handler) 256

namespace Handlers

def none : Handlers := ⟨Vector.replicate 256 Option.none⟩

def get (hs : Handlers) (id : MaterialId) : Option Handler := hs.bound.get id.toFin

def set (hs : Handlers) (id : MaterialId) (h : Handler) : Handlers :=
  ⟨hs.bound.set id.toNat (some h) (UInt8.toNat_lt id)⟩

/-- The materials that look for their handler under a key. -/
def boundBy (b : RuleBook) (key : String) : List MaterialId :=
  MaterialId.all.filter fun id => id ≠ MaterialId.outside && b.handlerKey id = some key

def bind (hs : Handlers) (b : RuleBook) (key : String) (h : Handler) : Handlers :=
  (boundBy b key).foldl (fun hs id => hs.set id h) hs

end Handlers

end Sandfall
