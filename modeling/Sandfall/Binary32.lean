import Sandfall.Rounding

/-!
Single-precision numbers kept as their 32 bits. Order is read off an integer rank, and sums are
exact integers rounded once, so every comparison and every result is a fact about integers.
-/

namespace Sandfall

structure Binary32 where
  bits : UInt32
deriving DecidableEq, Inhabited

namespace Binary32

def zero : Binary32 := ⟨0⟩

def half : Binary32 := ⟨0x3f000000⟩

def one : Binary32 := ⟨0x3f800000⟩

def signBit : Nat := 0x80000000

/-- The leading bit of a normal number, which is not stored. -/
def leadingBit : Nat := 0x800000

/-- The bits below the sign. -/
def magnitude (x : Binary32) : Nat := x.bits.toNat % signBit

def negative (x : Binary32) : Bool := signBit ≤ x.bits.toNat

/-- The magnitude of the infinities; NaNs lie above it. -/
def infinite : Nat := 255 * leadingBit

def isNaN (x : Binary32) : Bool := infinite < x.magnitude

def isFinite (x : Binary32) : Bool := x.magnitude < infinite

/-- Place on the number line: magnitudes order as their bits do, and both zeros stand at 0. -/
def rank (x : Binary32) : Int :=
  if x.negative then -(x.magnitude : Int) else x.magnitude

/-- A NaN is below nothing. -/
def lt (x y : Binary32) : Bool := !x.isNaN && !y.isNaN && x.rank < y.rank

def le (x y : Binary32) : Bool := !x.isNaN && !y.isNaN && x.rank ≤ y.rank

/-- Equality of values: the zeros agree, and a NaN differs from itself. -/
def same (x y : Binary32) : Bool := !x.isNaN && !y.isNaN && x.rank = y.rank

def isProbability (x : Binary32) : Bool := zero.le x && x.le one

/-- The absolute value of a finite number. -/
def scaled (x : Binary32) : Scaled :=
  if x.magnitude < leadingBit then ⟨x.magnitude, -149⟩
  else ⟨leadingBit + x.magnitude % leadingBit, (x.magnitude / leadingBit : Nat) - 150⟩

def ofMagnitude (negative : Bool) (m : Nat) : Binary32 :=
  ⟨UInt32.ofNat (if negative then signBit + m else m)⟩

def infinity (negative : Bool) : Binary32 := ofMagnitude negative infinite

def nan : Binary32 := ⟨0x7fc00000⟩

/-- The bits of a rounded number; beyond the largest finite one they are those of infinity. -/
def pack (negative : Bool) (x : Scaled) : Binary32 :=
  ofMagnitude negative (min infinite ((x.exponent + 149).toNat * leadingBit + x.mantissa))

/-- The nearest single-precision number to `num / den`. -/
def nearest (negative : Bool) (num den : Nat) : Binary32 :=
  pack negative (BinaryFormat.single.nearest num den)

def ofInt (n : Int) : Binary32 := nearest (n < 0) n.natAbs 1

/-- The value of a finite number in units of `2 ^ -149`. -/
def units (x : Binary32) : Int :=
  let m : Int := (x.scaled.mantissa <<< (x.scaled.exponent + 149).toNat : Nat)
  if x.negative then -m else m

def ofUnits (n : Int) : Binary32 := nearest (n < 0) n.natAbs (1 <<< 149)

/-- The rounded difference; a difference of nothing is the positive zero. -/
def sub (x y : Binary32) : Binary32 :=
  if x.isNaN || y.isNaN then nan
  else if x.isFinite && y.isFinite then ofUnits (x.units - y.units)
  else if x.isFinite then infinity (!y.negative)
  else if y.isFinite then x
  else if x.negative = y.negative then nan else x

def double (x : Binary32) : Binary32 :=
  if x.isFinite then ofUnits (2 * x.units) else x

/-- `k / 2 ^ 24` for `k < 2 ^ 24`, which is exact. -/
def ofFraction (k : Nat) : Binary32 :=
  if k = 0 then zero
  else ofMagnitude false ((k.log2 + 102) * leadingBit + k <<< (23 - k.log2))

end Binary32

end Sandfall
