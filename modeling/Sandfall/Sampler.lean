import Sandfall.Rule

/-!
The offsets a sampler describes, before they are narrowed: each with the number of its copies, row
by row from the top, and for ordered samplers the place where each group starts.
-/

namespace Sandfall

/-- The integers from `low` to `high`. -/
def intervalList (low high : Int) : List Int :=
  (List.range (high + 1 - low).toNat).map fun (i : Nat) => low + i

structure Expansion where
  /-- Offsets and how often each is listed. -/
  cells : List ((Int × Int) × Nat)
  /-- Where each group starts, and the end. -/
  starts : Option (List Nat)

namespace Expansion

def count (e : Expansion) : Nat := e.cells.foldr (fun c n => c.2 + n) 0

def offsets (e : Expansion) : List (Int × Int) :=
  e.cells.flatMap fun (o, n) => List.replicate n o

/-- A group without offsets. -/
def hasEmptyGroup (e : Expansion) : Bool :=
  match e.starts with
  | none => false
  | some starts => (starts.zip (starts.drop 1)).any fun (a, b) => a = b

end Expansion

namespace Sampler

/-- The box of offsets from the top row to the bottom one, each row from the left. -/
def box (left right up down : Int) : List (Int × Int) :=
  (intervalList (-up) down).flatMap fun dy =>
    (intervalList (-left) right).map fun dx => (dx, dy)

def once (os : List (Int × Int)) : List ((Int × Int) × Nat) := os.map fun o => (o, 1)

def widen (o : Offset) : Int × Int := (o.1.toInt, o.2.toInt)

/-- Running totals of the lengths, from `start` on. -/
def runningStarts (start : Nat) : List (List Offset) → List Nat
  | [] => [start]
  | g :: gs => start :: runningStarts (start + g.length) gs

def expand : Sampler → Expansion
  | .own => ⟨once [(0, 0)], none⟩
  | .offsets os => ⟨once (os.map widen), none⟩
  | .radius r bias =>
    let r : Int := r.toNat
    let around := (box r r r r).filter fun o => o ≠ (0, 0)
    ⟨around.map fun o => (o, if o.2 < 0 then 1 + bias.toNat else 1), none⟩
  | .annulus inner outer =>
    let r : Int := outer.toNat
    let i : Int := inner.toNat
    let ring := (box r r r r).filter fun (dx, dy) =>
      i * i < dx * dx + dy * dy ∧ dx * dx + dy * dy ≤ r * r
    ⟨once ring, none⟩
  | .rect left right up down =>
    ⟨once ((box left.toNat right.toNat up.toNat down.toNat).filter fun o => o ≠ (0, 0)), none⟩
  | .ordered groups => ⟨once (groups.flatten.map widen), some (runningStarts 0 groups)⟩

end Sampler

end Sandfall
