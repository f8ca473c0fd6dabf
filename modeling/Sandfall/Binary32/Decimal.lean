import Sandfall.Binary32
import Sandfall.Numeral

/-!
Decimal text of single-precision numbers. The digits are the fewest that read back: the point of the
coarsest decimal grid that lies among the reals rounding to the number, and of two such points the
nearer. `plain` never uses an exponent; `numeral?` is the form of a JSON number.
-/

namespace Sandfall

/-- The number `coefficient * 10 ^ exponent`. -/
structure Decimal where
  coefficient : Nat
  exponent : Int
deriving DecidableEq

/-- Which of two equally near neighbours is taken. -/
inductive TieRule where
  | up
  | even
deriving DecidableEq

/-- The reals that round to one number: from `low / den` to `high / den` around `mid / den`, with
the ends if `closed`. -/
structure RoundingSpan where
  low : Nat
  mid : Nat
  high : Nat
  den : Nat
  closed : Bool
deriving DecidableEq

namespace RoundingSpan

def inUnits (s : RoundingSpan) (k : Int) : RoundingSpan :=
  let up := Nat.pow 10 (-k).toNat
  let down := Nat.pow 10 k.toNat
  { s with low := s.low * up, mid := s.mid * up, high := s.high * up, den := s.den * down }

def contains (s : RoundingSpan) (n : Nat) : Bool :=
  if s.closed then s.low ≤ n * s.den && n * s.den ≤ s.high
  else s.low < n * s.den && n * s.den < s.high

/-- The integer of the span that is nearest to its middle. -/
def nearest? (tie : TieRule) (s : RoundingSpan) : Option Nat :=
  let n := s.mid / s.den
  let below := s.mid - n * s.den
  let above := (n + 1) * s.den - s.mid
  match s.contains n, s.contains (n + 1) with
  | true, true =>
    if below < above then some n
    else if above < below then some (n + 1)
    else match tie with
      | .up => some (n + 1)
      | .even => some (if n % 2 = 0 then n else n + 1)
  | true, false => some n
  | false, true => some (n + 1)
  | false, false => none

end RoundingSpan

namespace Binary32

/-- Half a unit of the last place to either side, but a quarter below a power of two, where the
numbers under it lie twice as dense. -/
def roundingSpan (x : Binary32) : RoundingSpan :=
  let s := x.scaled
  let below := if s.mantissa = leadingBit && -149 < s.exponent then 1 else 2
  let unit := 1 <<< (s.exponent - 2).toNat
  { low := (4 * s.mantissa - below) * unit
    mid := 4 * s.mantissa * unit
    high := (4 * s.mantissa + 2) * unit
    den := 1 <<< (2 - s.exponent).toNat
    closed := s.mantissa % 2 = 0 }

def gridExponents : List Int := (List.range 84).map fun (i : Nat) => 38 - (i : Int)

/-- The fewest digits that read back as the absolute value of a finite number. -/
def shortest (tie : TieRule) (x : Binary32) : Decimal :=
  let found := gridExponents.findSome? fun k =>
    ((x.roundingSpan.inUnits k).nearest? tie).map fun n => Decimal.mk n k
  if x.magnitude = 0 then ⟨0, 0⟩ else found.getD ⟨0, 0⟩

end Binary32

namespace Decimal

def positional (d : Decimal) : List Digit × List Digit :=
  let ds := Digit.ofNat d.coefficient
  let places := (-d.exponent).toNat
  if ds.length ≤ places then ([Digit.zero], List.replicate (places - ds.length) Digit.zero ++ ds)
  else if 0 < places then (ds.take (ds.length - places), ds.drop (ds.length - places))
  else (ds ++ List.replicate d.exponent.toNat Digit.zero, [])

def order (d : Decimal) : Int := d.exponent + ((Digit.ofNat d.coefficient).length : Int) - 1

end Decimal

namespace Binary32

def plainNumeral (x : Binary32) : Numeral :=
  let (whole, fraction) := (x.shortest .up).positional
  ⟨x.negative, whole, fraction, none⟩

/-- Fewest digits, no exponent, no fraction on whole numbers. -/
def plain (x : Binary32) : String :=
  if x.isNaN then "NaN"
  else if x.isFinite then String.ofList x.plainNumeral.chars
  else if x.negative then "-inf" else "inf"

/-- Fewest digits with a fraction, or a leading digit and an exponent outside `10 ^ -6` to
`10 ^ 12`. Infinities and NaNs have none. -/
def numeral? (x : Binary32) : Option Numeral :=
  if x.isFinite then
    let d := x.shortest .even
    if -6 ≤ d.order && d.order ≤ 12 then
      let (whole, fraction) := d.positional
      some ⟨x.negative, whole, if fraction.isEmpty then [Digit.zero] else fraction, none⟩
    else
      let ds := Digit.ofNat d.coefficient
      some ⟨x.negative, ds.take 1, ds.drop 1, some d.order⟩
  else none

/-- The nearest single-precision number to a number read; a double is rounded a second time. -/
def ofNumber : Number → Binary32
  | .integer n => ofInt n
  | .real negative x => pack negative (x.round .single)

end Binary32

end Sandfall
