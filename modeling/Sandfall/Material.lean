import Sandfall.Binary32

/-!
Materials by their ids, and what tells them apart: identity tags, kept as the bits of one word, and
the movement coefficients a material may or may not have.
-/

namespace Sandfall

abbrev MaterialId := UInt8

namespace MaterialId

/-- The empty cell; it has no archetype. -/
def empty : MaterialId := 0

/-- What a look outside the grid finds; it is no material. -/
def outside : MaterialId := 255

def all : List MaterialId := (List.range 256).map UInt8.ofNat

end MaterialId

inductive Tag where
  | solid
  | powder
  | liquid
  | gas
  | flammable
  | hot
  | cold
  | conductive
  | explosive
  | organic
  | corrosive
deriving DecidableEq

namespace Tag

def bit : Tag → UInt32
  | .solid => 1
  | .powder => 2
  | .liquid => 4
  | .gas => 8
  | .flammable => 16
  | .hot => 32
  | .cold => 64
  | .conductive => 128
  | .explosive => 256
  | .organic => 512
  | .corrosive => 1024

def mask (tags : List Tag) : UInt32 := tags.foldl (fun m t => m ||| t.bit) 0

def names : List (String × Tag) :=
  [("solid", .solid), ("powder", .powder), ("liquid", .liquid), ("gas", .gas),
    ("flammable", .flammable), ("hot", .hot), ("cold", .cold), ("conductive", .conductive),
    ("explosive", .explosive), ("organic", .organic), ("corrosive", .corrosive)]

def name : Tag → String
  | .solid => "solid"
  | .powder => "powder"
  | .liquid => "liquid"
  | .gas => "gas"
  | .flammable => "flammable"
  | .hot => "hot"
  | .cold => "cold"
  | .conductive => "conductive"
  | .explosive => "explosive"
  | .organic => "organic"
  | .corrosive => "corrosive"

end Tag

/-- A coefficient that rules may read off the acting material. -/
inductive Property where
  | gravity
  | buoyancy
  | liquid
  | density
  | randomWalk
deriving DecidableEq

namespace Property

def all : List Property := [.gravity, .buoyancy, .liquid, .density, .randomWalk]

def name : Property → String
  | .gravity => "gravity"
  | .buoyancy => "buoyancy"
  | .liquid => "liquid"
  | .density => "density"
  | .randomWalk => "random_walk"

def names : List (String × Property) :=
  [("gravity", .gravity), ("buoyancy", .buoyancy), ("liquid", .liquid), ("density", .density),
    ("random_walk", .randomWalk)]

/-- The name error messages use. -/
def title : Property → String
  | .gravity => "Gravity"
  | .buoyancy => "Buoyancy"
  | .liquid => "Liquid"
  | .density => "Density"
  | .randomWalk => "RandomWalk"

end Property

/-- Coefficients of one material. All but the density are chances. -/
structure Movement where
  gravity : Option Binary32 := none
  buoyancy : Option Binary32 := none
  liquid : Option Binary32 := none
  density : Option Binary32 := none
  randomWalk : Option Binary32 := none
deriving DecidableEq, Inhabited

def Movement.get (m : Movement) : Property → Option Binary32
  | .gravity => m.gravity
  | .buoyancy => m.buoyancy
  | .liquid => m.liquid
  | .density => m.density
  | .randomWalk => m.randomWalk

end Sandfall
