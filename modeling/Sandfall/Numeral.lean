import Sandfall.Rounding

/-!
Decimal numerals as they are written: a sign, whole digits, fraction digits and an exponent.
Reading gathers digits while they fit a 64-bit word; a numeral with neither fraction nor exponent
that fits is an integer, and any other is a double made with one multiplication or division.
-/

namespace Sandfall

abbrev Digit := Fin 10

namespace Digit

def zero : Digit := ⟨0, by decide⟩

def char (d : Digit) : Char := Char.ofNat (48 + d.val)

def ofChar? (c : Char) : Option Digit :=
  if h : 48 ≤ c.toNat ∧ c.toNat < 58 then some ⟨c.toNat - 48, by omega⟩ else none

/-- The decimal digits of a number, highest first. -/
def ofNat (n : Nat) : List Digit :=
  if n < 10 then [⟨n % 10, Nat.mod_lt _ (by decide)⟩]
  else ofNat (n / 10) ++ [⟨n % 10, Nat.mod_lt _ (by decide)⟩]

def value (ds : List Digit) : Nat := ds.foldl (fun n d => 10 * n + d.val) 0

end Digit

structure Numeral where
  negative : Bool
  whole : List Digit
  fraction : List Digit
  exponent : Option Int
deriving DecidableEq

/-- What a numeral stands for: an integer, or the double `± mantissa * 2 ^ exponent`. -/
inductive Number where
  | integer (n : Int)
  | real (negative : Bool) (value : Scaled)
deriving DecidableEq

namespace Numeral

def ofNat (n : Nat) : Numeral := ⟨false, Digit.ofNat n, [], none⟩

def ofInt (n : Int) : Numeral := ⟨n < 0, Digit.ofNat n.natAbs, [], none⟩

def digitChars (ds : List Digit) : List Char := ds.map Digit.char

/-- An exponent is written with its sign. -/
def exponentChars (e : Int) : List Char :=
  'e' :: (if e < 0 then '-' else '+') :: digitChars (Digit.ofNat e.natAbs)

def chars (n : Numeral) : List Char :=
  (if n.negative then ['-'] else []) ++ digitChars n.whole
    ++ (if n.fraction.isEmpty then [] else '.' :: digitChars n.fraction)
    ++ (n.exponent.map exponentChars).getD []

/-- Appends digits to `n` while the result fits a 64-bit word; the rest is left over. -/
def gather (n : Nat) : List Digit → Nat × List Digit
  | [] => (n, [])
  | d :: ds => if 10 * n + d.val < UInt64.size then gather (10 * n + d.val) ds else (n, d :: ds)

def doubleOfNat (n : Nat) : Scaled := BinaryFormat.double.nearest n 1

/-- `10 ^ k` as a double. -/
def powerOfTen (k : Nat) : Scaled := doubleOfNat (Nat.pow 10 k)

/-- The double `x / 10 ^ k`, divided by `10 ^ 308` as often as needed. -/
def lower (x : Scaled) (k : Nat) : Scaled :=
  if k ≤ 308 then x.div .double (powerOfTen k)
  else if x.mantissa = 0 then x
  else lower (x.div .double (powerOfTen 308)) (k - 308)
termination_by k

/-- `n * 10 ^ e` by one rounding of `n`, one of the power and one of the result; nothing when it is
too large. -/
def scale (n : Nat) (e : Int) : Option Scaled :=
  let x := doubleOfNat n
  if e < 0 then some (lower x (-e).toNat)
  else if e ≤ 308 then
    let y := x.mul .double (powerOfTen e.toNat)
    if y.overflows .double then none else some y
  else if n = 0 then some x
  else none

/-- Exponents saturate at 32 bits. -/
def clampExponent (e : Int) : Int := max (-0x80000000) (min 0x7fffffff e)

/-- The number written; nothing when it is beyond every double. -/
def read (n : Numeral) : Option Number :=
  let (w, surplus) := gather 0 n.whole
  match n.fraction, n.exponent, surplus with
  | [], none, [] =>
    if !n.negative then some (.integer w)
    else if 0 < w && 2 * w ≤ UInt64.size then some (.integer (-(w : Int)))
    else some (.real true (doubleOfNat w))
  | fraction, exponent, surplus =>
    let (m, rest) := gather w fraction
    let shift : Int := (surplus.length : Int) - ((fraction.length - rest.length : Nat) : Int)
    let e := exponent.getD 0
    if e.natAbs ≤ 0x7fffffff then
      (scale m (clampExponent (shift + e))).map (.real n.negative)
    else if m ≠ 0 && 0 < e then none
    else some (.real n.negative (doubleOfNat 0))

end Numeral

end Sandfall
