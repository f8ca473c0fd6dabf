import Sandfall.Rule

/-!
What is known of one material: its look, coefficients, tags, flags and rules. A special material is
left to a handler instead of its rules.
-/

namespace Sandfall

structure Archetype where
  name : String
  color : UInt32
  movement : Movement := {}
  tags : UInt32 := 0
  immobile : Bool := false
  spawner : Bool := false
  creature : Bool := false
  handler : Option String := none
  rules : List Rule := []

namespace Archetype

def property (a : Archetype) (p : Property) : Option Binary32 := a.movement.get p

def hasAnyTag (a : Archetype) (mask : UInt32) : Bool := a.tags &&& mask != 0

def isSpecial (a : Archetype) : Bool := a.spawner || a.creature || a.handler.isSome

/-- Handlers register under the named handler, or else under the material's name. -/
def handlerKey (a : Archetype) : String := a.handler.getD a.name

end Archetype

end Sandfall
