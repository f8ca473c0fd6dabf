/-!
Stamps on cells. A cell is stamped if it was stamped since the pass began: a stamp is the parity of
its pass, and the list of stamped cells, kept as words, tells which marks the next pass has to wipe.
-/

namespace Sandfall

structure Stamps (cells : Nat) where
  marks : Vector UInt8 cells
  parity : UInt8
  /-- Newest first. -/
  stamped : List UInt32

namespace Stamps

variable {n : Nat}

def fresh (n : Nat) : Stamps n := ⟨Vector.replicate n 0, 1, []⟩

def beginPass (s : Stamps n) : Stamps n where
  marks := s.stamped.foldl (fun marks i => marks.setIfInBounds i.toNat 0) s.marks
  parity := if s.parity = 1 then 2 else 1
  stamped := []

def isStamped (s : Stamps n) (i : Nat) : Bool := s.marks[i]?.getD 0 = s.parity

def stamp (s : Stamps n) (i : Nat) : Stamps n :=
  if s.isStamped i then s
  else
    { s with
      marks := s.marks.setIfInBounds i s.parity
      stamped := UInt32.ofNat i :: s.stamped }

/-- The parity stays. -/
def clear (s : Stamps n) : Stamps n := { s with marks := Vector.replicate n 0, stamped := [] }

end Stamps

end Sandfall
