import Sandfall.Binary32

/-!
The one source of randomness: a 32-bit word and three xor-shifts. The word is the whole state, so a
saved run goes on with the same draws. Zero would stay zero and is replaced.
-/

namespace Sandfall

structure Random where
  state : UInt32
deriving DecidableEq, Inhabited

namespace Random

def step (x : UInt32) : UInt32 :=
  let x := x ^^^ (x <<< 13)
  let x := x ^^^ (x >>> 17)
  x ^^^ (x <<< 5)

def nonzero (s : UInt32) : UInt32 := if s = 0 then 0x9E3779B9 else s

def ofSeed (s : UInt32) : Random := ⟨nonzero s⟩

/-- The next word is also the next state. -/
def next (r : Random) : UInt32 × Random := (step r.state, ⟨step r.state⟩)

/-- The top 24 bits of the next word. -/
def fraction (r : Random) : Nat × Random := (r.next.1.toNat / 256, r.next.2)

/-- A number in `[0, 1)`, in steps of `2 ^ -24`. -/
def unit (r : Random) : Binary32 × Random := (Binary32.ofFraction r.fraction.1, r.fraction.2)

/-- A number below `n`, or 0 if there is none. -/
def below (n : Nat) (r : Random) : Nat × Random := (r.next.1.toNat * n / UInt32.size, r.next.2)

/-- True with probability `p`. -/
def chance (p : Binary32) (r : Random) : Bool × Random := (r.unit.1.lt p, r.unit.2)

/-- Adds the next `n` words to a sum. -/
def skip : Nat → UInt32 → Random → UInt32 × Random
  | 0, sum, r => (sum, r)
  | n + 1, sum, r => skip n (sum + r.next.1) r.next.2

end Random

end Sandfall
