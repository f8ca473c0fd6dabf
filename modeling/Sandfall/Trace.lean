import Std.Data.HashSet

/-!
A log of moves, each with the number of its pass, kept to find particles that move twice in a pass.
Passes are counted in a word, which wraps.
-/

namespace Sandfall

structure Move where
  pass : UInt32
  source : UInt32
  target : UInt32
deriving DecidableEq

structure Trace where
  pass : UInt32
  moves : Array Move

namespace Trace

def empty : Trace := ⟨0, #[]⟩

def beginPass (t : Trace) : Trace := { t with pass := t.pass + 1 }

def record (t : Trace) (source target : Nat) : Trace :=
  { t with moves := t.moves.push ⟨t.pass, UInt32.ofNat source, UInt32.ofNat target⟩ }

/-- Forgets the moves; the passes go on being counted. -/
def clear (t : Trace) : Trace := { t with moves := #[] }

/-- What is known after reading some moves: their last pass, the cells it has moved something into,
and all moves out of such cells. -/
structure Repeats where
  pass : Option UInt32
  landed : Std.HashSet UInt32
  found : Array Move

def Repeats.read (r : Repeats) (m : Move) : Repeats :=
  let landed := if r.pass = some m.pass then r.landed else ∅
  let found := if landed.contains m.source then r.found.push m else r.found
  ⟨some m.pass, landed.insert m.target, found⟩

/-- Moves out of a cell that an earlier move of the same pass went into. -/
def repeatedMoves (t : Trace) : List Move :=
  (t.moves.foldl Repeats.read ⟨none, ∅, #[]⟩).found.toList

end Trace

end Sandfall
