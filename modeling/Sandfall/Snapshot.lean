import Sandfall.Material

/-!
Save files: a marker, a version, little-endian header fields and one byte for each cell. Each
version adds a field to the header; saves older than versions have none and are told by their exact
size.
-/

namespace Sandfall

inductive SaveError where
  | badMagic (found : List UInt8)
  | unsupportedVersion (version : UInt8)
  | truncated (expected actual : Nat)
  | trailingBytes (expected actual : Nat)
  | invalidDimensions (width height : Nat)
  | unknownMaterial (index : Nat) (id : MaterialId)
deriving DecidableEq

def SaveError.message : SaveError → String
  | .badMagic found =>
    let bytes := ", ".intercalate (found.map fun b => toString b.toNat)
    s!"bad magic marker: [{bytes}]"
  | .unsupportedVersion v => s!"unsupported save version: {v}"
  | .truncated e a => s!"save data truncated: expected {e} bytes, got {a}"
  | .trailingBytes e a => s!"save data has trailing bytes: expected {e} bytes, got {a}"
  | .invalidDimensions w h => s!"invalid grid dimensions: {w}x{h}"
  | .unknownMaterial i id => s!"cell {i} holds unknown material id {id}"

/-- What a save holds; version 0 is the layout without a version. -/
structure Snapshot where
  version : UInt8
  width : Nat
  height : Nat
  rng : Option UInt32
  step : Option UInt32
  seed : Option UInt32
  cells : List MaterialId
deriving DecidableEq

namespace Snapshot

/-- The low bytes of a number, lowest first. -/
def littleEndian : Nat → Nat → List UInt8
  | 0, _ => []
  | bytes + 1, n => UInt8.ofNat n :: littleEndian bytes (n / 256)

def ofLittleEndian (bytes : List UInt8) : Nat := bytes.foldr (fun b n => b.toNat + 256 * n) 0

/-- The number in `size` bytes from a place on. -/
def field (bytes : List UInt8) (start size : Nat) : Nat :=
  ofLittleEndian ((bytes.drop start).take size)

def word (bytes : List UInt8) (start : Nat) : UInt32 := UInt32.ofNat (field bytes start 4)

/-- The letters SAND. -/
def magic : List UInt8 := [83, 65, 78, 68]

def currentVersion : UInt8 := 4

def headerLength? (version : UInt8) : Option Nat :=
  if version = 1 then some 9
  else if version = 2 then some 13
  else if version = 3 then some 17
  else if version = 4 then some 21
  else none

/-- A save of the current version. Dimensions are cut to 16 bits. -/
def encode (width height : Nat) (rng step seed : UInt32) (cells : List MaterialId) : List UInt8 :=
  magic ++ currentVersion :: littleEndian 2 width ++ littleEndian 2 height
    ++ littleEndian 4 rng.toNat ++ littleEndian 4 step.toNat ++ littleEndian 4 seed.toNat ++ cells

/-- The cells behind a header, which must be all that is there. -/
def cellsBehind (bytes : List UInt8) (header width height : Nat) :
    Except SaveError (List MaterialId) :=
  let expected := header + width * height
  if width = 0 ∨ height = 0 then .error (.invalidDimensions width height)
  else if bytes.length < expected then .error (.truncated expected bytes.length)
  else if expected < bytes.length then .error (.trailingBytes expected bytes.length)
  else .ok (bytes.drop header)

def decodeVersioned (bytes : List UInt8) : Except SaveError Snapshot :=
  match bytes[4]? with
  | none => .error (.truncated 5 bytes.length)
  | some version =>
    match headerLength? version with
    | none => .error (.unsupportedVersion version)
    | some header =>
      if bytes.length < header then .error (.truncated header bytes.length)
      else
        let width := field bytes 5 2
        let height := field bytes 7 2
        match cellsBehind bytes header width height with
        | .error e => .error e
        | .ok cells => .ok {
            version, width, height, cells
            rng := if 2 ≤ version then some (word bytes 9) else none
            step := if 3 ≤ version then some (word bytes 13) else none
            seed := if 4 ≤ version then some (word bytes 17) else none }

def decodeLegacy? (bytes : List UInt8) : Option Snapshot :=
  if bytes.length < 8 then none
  else
    let width := field bytes 4 2
    let height := field bytes 6 2
    match cellsBehind bytes 8 width height with
    | .error _ => none
    | .ok cells =>
      some { version := 0, width, height, rng := none, step := none, seed := none, cells }

/-- A save that is well formed in neither way has the error of its versioned reading. -/
def decode (bytes : List UInt8) : Except SaveError Snapshot :=
  if bytes.length < 4 then .error (.truncated 4 bytes.length)
  else if bytes.take 4 ≠ magic then .error (.badMagic (bytes.take 4))
  else
    match decodeVersioned bytes with
    | .ok s => .ok s
    | .error e =>
      match decodeLegacy? bytes with
      | some s => .ok s
      | none => .error e

end Snapshot

end Sandfall
