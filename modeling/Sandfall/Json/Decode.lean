import Sandfall.Json
import Sandfall.Binary32.Decimal

/-!
Reading typed values out of documents. A record is an object of named fields, or an array of them in
order. What is skipped may be as deep and as strange as it likes; what is read, or buffered to be
read later, may open only so many brackets.
-/

namespace Sandfall.Json

/-- Where a value is read from: the text, with so many brackets left to open, or a buffer, whose
contents were checked when it was filled. -/
inductive Source where
  | text (room : Nat)
  | buffer
deriving DecidableEq

namespace Source

/-- A whole document may have 127 brackets open at once. -/
def document : Source := .text 127

/-- Inside one more bracket. -/
def enter : Source → Option Source
  | .text 0 => none
  | .text (room + 1) => some (.text room)
  | .buffer => some .buffer

/-- The value may be buffered. -/
def holds (src : Source) (j : Json) : Bool :=
  match src with
  | .text room => j.fits room
  | .buffer => true

end Source

abbrev Decoder (α : Type) := Source → Json → Option α

namespace Decoder

def bool : Decoder Bool
  | _, .bool b => some b
  | _, _ => none

def text : Decoder String
  | _, .string s => s
  | _, _ => none

/-- An integer between two bounds; a numeral with a fraction or an exponent is none. -/
def integer (low high : Int) : Decoder Int
  | _, .number n =>
    match n.read with
    | some (.integer i) => if low ≤ i ∧ i ≤ high then some i else none
    | _ => none
  | _, _ => none

def uint8 : Decoder UInt8 := fun src j => (integer 0 255 src j).map fun i => UInt8.ofNat i.toNat

def uint16 : Decoder UInt16 :=
  fun src j => (integer 0 65535 src j).map fun i => UInt16.ofNat i.toNat

def uint32 : Decoder UInt32 :=
  fun src j => (integer 0 4294967295 src j).map fun i => UInt32.ofNat i.toNat

def uint64 : Decoder UInt64 :=
  fun src j => (integer 0 18446744073709551615 src j).map fun i => UInt64.ofNat i.toNat

def int8 : Decoder Int8 := fun src j => (integer (-128) 127 src j).map Int8.ofInt

def binary32 : Decoder Binary32
  | _, .number n => n.read.map Binary32.ofNumber
  | _, _ => none

/-- Null is the absent value. -/
def nullable {α : Type} (d : Decoder α) : Decoder (Option α)
  | _, .null => some none
  | src, j => (d src j).map some

def list {α : Type} (d : Decoder α) : Decoder (List α)
  | src, .array items => do
    let inner ← src.enter
    items.mapM (d inner)
  | _, _ => none

def pair {α β : Type} (d : Decoder α) (e : Decoder β) : Decoder (α × β)
  | src, .array [a, b] => do
    let inner ← src.enter
    return (← d inner a, ← e inner b)
  | _, _ => none

end Decoder

/-- A case and what it carries: a bare name carries nothing, an object with one member carries the
member's value. -/
def case? : Source → Json → Option (String × Option (Source × Json))
  | _, .string s => s.map fun name => (name, none)
  | src, .object [(some name, j)] => src.enter.map fun inner => (name, some (inner, j))
  | _, _ => none

/-- A case that carries nothing may be written with null; in a buffer an empty object does as
well. -/
def carriesNothing : Option (Source × Json) → Bool
  | none => true
  | some (_, .null) => true
  | some (.buffer, .object []) => true
  | _ => false

def Decoder.enum {α : Type} (cases : List (String × α)) : Decoder α := fun src j =>
  match case? src j with
  | some (name, payload) => if carriesNothing payload then cases.lookup name else none
  | none => none

/-- The fields found, each with its value. -/
structure Fields where
  source : Source
  values : List (String × Json)

namespace Fields

def required {α : Type} (f : Fields) (name : String) (d : Decoder α) : Option α :=
  (f.values.lookup name).bind (d f.source)

/-- An absent field has its default. -/
def withDefault {α : Type} (f : Fields) (name : String) (default : α) (d : Decoder α) : Option α :=
  match f.values.lookup name with
  | none => some default
  | some j => d f.source j

/-- Absent or null is none. -/
def optional {α : Type} (f : Fields) (name : String) (d : Decoder α) : Option (Option α) :=
  f.withDefault name none d.nullable

end Fields

def pick (names : List String) (members : List (Label × Json)) : List (String × Json) :=
  members.filterMap fun (k, j) => k.bind fun k => if k ∈ names then some (k, j) else none

def keysDiffer (fields : List (String × Json)) : Bool :=
  (fields.map Prod.fst).Nodup

/-- A record with fields of these names. Other members are skipped; a field given twice, and an
element too many, are refused. -/
def record? (names : List String) (src : Source) : Json → Option Fields
  | .array items =>
    if items.length ≤ names.length then src.enter.map fun inner => ⟨inner, names.zip items⟩
    else none
  | .object members =>
    let fields := pick names members
    if members.all (fun m => m.1.isSome) && keysDiffer fields then
      src.enter.map fun inner => ⟨inner, fields⟩
    else none
  | _ => none

/-- An object whose own fields are read from the text while all its other members are buffered, and
among them the fields of an inner record. -/
def flattened? (names inner : List String) (src : Source) : Json → Option (Fields × Fields)
  | .object members => do
    let source ← src.enter
    let own := pick names members
    let shared := pick inner members
    let buffered := members.filter fun (k, _) => k.any fun k => k ∉ names
    if members.all (fun m => m.1.isSome) && keysDiffer own && keysDiffer shared
        && buffered.all (fun m => source.holds m.2) then
      return (⟨source, own⟩, ⟨.buffer, shared⟩)
    else none
  | _ => none

/-- A value that names its kind in the member `tag`, or in the first place of an array. The rest is
buffered. -/
def tagged? (tag : String) (src : Source) : Json → Option (String × Json)
  | .array (.string (some kind) :: rest) => do
    let source ← src.enter
    if rest.all source.holds then some (kind, .array rest) else none
  | .object members => do
    let source ← src.enter
    let rest := members.filter fun m => m.1 ≠ some tag
    match members.filter fun m => m.1 = some tag with
    | [(_, .string (some kind))] =>
      if rest.all fun m => m.1.isSome && source.holds m.2 then some (kind, .object rest) else none
    | _ => none
  | _ => none

end Sandfall.Json
