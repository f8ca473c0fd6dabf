/-!
Rounding to a binary floating-point format: every positive rational goes to the nearest
representable number, a half to the even neighbour. Values are exact pairs
`mantissa * 2 ^ exponent`, so the rounding of a product, a quotient or a narrower format is one
function of one fraction.
-/

namespace Sandfall

/-- Finite numbers are `m * 2 ^ e` with `m < 2 ^ precision` and `minExponent ≤ e`, and lie below
`2 ^ limit`. -/
structure BinaryFormat where
  precision : Nat
  minExponent : Int
  limit : Int
deriving DecidableEq

namespace BinaryFormat

def single : BinaryFormat := ⟨24, -149, 128⟩

def double : BinaryFormat := ⟨53, -1074, 1024⟩

end BinaryFormat

/-- The number `mantissa * 2 ^ exponent`. -/
structure Scaled where
  mantissa : Nat
  exponent : Int
deriving DecidableEq

/-- `a / b` to the nearest integer, a half to the even one. -/
def divNearest (a b : Nat) : Nat :=
  let q := a / b
  let r := 2 * (a % b)
  if r < b then q
  else if b < r then q + 1
  else q + q % 2

/-- The largest `e` with `2 ^ e ≤ num / den`. -/
def log2Ratio (num den : Nat) : Int :=
  let e : Int := (num.log2 : Int) - (den.log2 : Int)
  if den <<< e.toNat ≤ num <<< (-e).toNat then e else e - 1

namespace BinaryFormat

/-- The exponent at which a number in `[2 ^ top, 2 ^ (top + 1))` is stored. -/
def exponentFor (f : BinaryFormat) (top : Int) : Int :=
  max f.minExponent (top - ((f.precision : Int) - 1))

/-- `num / den` rounded to the format, as if it had no largest number. -/
def nearest (f : BinaryFormat) (num den : Nat) : Scaled :=
  if num = 0 then ⟨0, f.minExponent⟩
  else
    let e := f.exponentFor (log2Ratio num den)
    ⟨divNearest (num <<< (-e).toNat) (den <<< e.toNat), e⟩

end BinaryFormat

namespace Scaled

def num (x : Scaled) : Nat := x.mantissa <<< x.exponent.toNat

def den (x : Scaled) : Nat := 1 <<< (-x.exponent).toNat

/-- `x` lies beyond the largest finite number of the format. -/
def overflows (f : BinaryFormat) (x : Scaled) : Bool :=
  x.den <<< f.limit.toNat ≤ x.num

def round (f : BinaryFormat) (x : Scaled) : Scaled := f.nearest x.num x.den

def mul (f : BinaryFormat) (x y : Scaled) : Scaled := f.nearest (x.num * y.num) (x.den * y.den)

def div (f : BinaryFormat) (x y : Scaled) : Scaled := f.nearest (x.num * y.den) (x.den * y.num)

end Scaled

end Sandfall
