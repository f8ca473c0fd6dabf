import Sandfall.Numeral

/-!
JSON documents as trees that keep what was written: numerals with their digits, members in order
and with repetitions. A quoted text whose escapes leave a surrogate unpaired stands for no text;
such a text, a numeral out of range or a deep nest does no harm where nobody reads it.
-/

namespace Sandfall

/-- The characters between two quotes, if they stand for a text. -/
abbrev Label := Option String

inductive Json where
  | null
  | bool (b : Bool)
  | number (n : Numeral)
  | string (s : Label)
  | array (items : List Json)
  | object (members : List (Label × Json))
deriving Inhabited

namespace Json

def text (s : String) : Json := .string (some s)

def nat (n : Nat) : Json := .number (.ofNat n)

def int (n : Int) : Json := .number (.ofInt n)

def record (members : List (String × Json)) : Json :=
  .object (members.map fun (k, v) => (some k, v))

/-- The absent value is null. -/
def optional {α : Type} (f : α → Json) : Option α → Json
  | none => .null
  | some a => f a

mutual

/-- The tree is at most `room` brackets deep, and all it holds can be read. -/
def fits (room : Nat) : Json → Bool
  | .null => true
  | .bool _ => true
  | .number n => n.read.isSome
  | .string s => s.isSome
  | .array items => match room with
    | 0 => false
    | room + 1 => allFit room items
  | .object members => match room with
    | 0 => false
    | room + 1 => membersFit room members

def allFit (room : Nat) : List Json → Bool
  | [] => true
  | j :: js => fits room j && allFit room js

def membersFit (room : Nat) : List (Label × Json) → Bool
  | [] => true
  | (k, j) :: ms => k.isSome && fits room j && membersFit room ms

end

end Json

end Sandfall
