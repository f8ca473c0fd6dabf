import Sandfall.Json.Text
import Sandfall.Json.Decode

/-!
The settings a world starts with, and their JSON form. Dimensions must fit the header of a save.
-/

namespace Sandfall

structure Config where
  width : UInt32 := 256
  height : UInt32 := 256
  seed : UInt32 := 12345
  chunkSleeping : Bool := true
deriving DecidableEq

/-- The dimensions are out of range. -/
structure ConfigError where
  width : UInt32
  height : UInt32
deriving DecidableEq

namespace Config

def maxDimension : Nat := 65535

def check (c : Config) : Option ConfigError :=
  if c.width = 0 ∨ c.height = 0 ∨ maxDimension < c.width.toNat ∨ maxDimension < c.height.toNat then
    some ⟨c.width, c.height⟩
  else none

def toJson (c : Config) : Json :=
  .record [("width", .nat c.width.toNat), ("height", .nat c.height.toNat),
    ("seed", .nat c.seed.toNat), ("chunkSleeping", .bool c.chunkSleeping)]

def decode : Json.Decoder Config := fun src j => do
  let f ← Json.record? ["width", "height", "seed", "chunkSleeping"] src j
  return {
    width := ← f.withDefault "width" 256 Json.Decoder.uint32
    height := ← f.withDefault "height" 256 Json.Decoder.uint32
    seed := ← f.withDefault "seed" 12345 Json.Decoder.uint32
    chunkSleeping := ← f.withDefault "chunkSleeping" true Json.Decoder.bool }

/-- The settings a text holds; their range is not checked. -/
def parse? (s : String) : Option Config := (Json.parse? s).bind (decode .document)

def render (c : Config) : String := c.toJson.render

end Config

def ConfigError.message (e : ConfigError) : String :=
  s!"grid dimensions must be within 1..={Config.maxDimension}: got {e.width}x{e.height}"

end Sandfall
