import Sandfall.Catalog
import Sandfall.IdSet

/-!
Rule books: the rules of a catalog as tables. Where a rule looks is one array of offsets, what it
does with each material is one slot per id, and conditions on materials have become sets of ids.
-/

namespace Sandfall

inductive Pass where
  | rising
  | falling
deriving DecidableEq

def PassRestriction.admits (r : PassRestriction) (pass : Pass) : Bool :=
  match r, pass with
  | .rising, .falling => false
  | .falling, .rising => false
  | _, _ => true

inductive Outcome where
  | noop
  | stop
  | transform (this other : Option MaterialId) (thisChance otherChance : Binary32)
  | swap (chance : Binary32)
  | densitySwap
  /-- `allow` holds the materials that may stand where the moved one lands. -/
  | directionSwap (reach : Int8) (allow : IdSet)
deriving DecidableEq

/-- The outcome takes the candidate out of its cell. -/
def Outcome.movesCandidate : Outcome → Bool
  | .swap _ => true
  | .densitySwap => true
  | .directionSwap reach _ => reach < 0
  | _ => false

/-- The slot of a material that no matcher accepts. -/
def noMatch : UInt8 := 255

def maxOutcomes : Nat := 254

def maxOffsets : Nat := 65535

structure CompiledRule where
  chance : Binary32
  offsets : Array Offset
  /-- The number of offsets, as a 16-bit word. -/
  count : UInt16
  samples : Nat
  /-- Where each group of an ordered rule starts in `offsets`, and the end. -/
  starts : Option (Array UInt16)
  /-- The outcome for each candidate's id. -/
  slots : Vector UInt8 256
  outcomes : Array Outcome
  /-- Rewritten candidates before the walk ends; 0 is no limit. -/
  limit : Nat
  commit : Commit
  stamp : Bool

namespace CompiledRule

def offset (r : CompiledRule) (k : Nat) : Int × Int :=
  let o := r.offsets.getD k (0, 0)
  (o.1.toInt, o.2.toInt)

def slot (r : CompiledRule) (id : MaterialId) : UInt8 := r.slots.get id.toFin

def outcome (r : CompiledRule) (slot : UInt8) : Outcome := r.outcomes.getD slot.toNat .noop

/-- First offset and end of the `g`-th group. -/
def group (starts : Array UInt16) (g : Nat) : Nat × Nat :=
  ((starts.getD g 0).toNat, (starts.getD (g + 1) 0).toNat)

def groupCount (starts : Array UInt16) : Nat := starts.size - 1

def flatOffsets (r : CompiledRule) : List Int :=
  r.offsets.toList.flatMap fun o => [o.1.toInt, o.2.toInt]

def groupRanges (r : CompiledRule) : Option (List (Nat × Nat)) :=
  r.starts.map fun starts => (List.range (groupCount starts)).map (group starts)

end CompiledRule

structure RuleBook where
  catalog : Catalog
  rising : Vector (List CompiledRule) 256
  falling : Vector (List CompiledRule) 256
  known : IdSet
  special : IdSet
  immobile : IdSet
  densities : Vector Binary32 256

namespace RuleBook

def rules (b : RuleBook) (pass : Pass) (id : MaterialId) : List CompiledRule :=
  match pass with
  | .rising => b.rising.get id.toFin
  | .falling => b.falling.get id.toFin

def isKnown (b : RuleBook) (id : MaterialId) : Bool := b.known.contains id

/-- Left to a handler. -/
def isSpecial (b : RuleBook) (id : MaterialId) : Bool := b.special.contains id

/-- A chunk that holds such a material never falls asleep. -/
def keepsAwake (b : RuleBook) (id : MaterialId) : Bool := b.special.contains id

def isImmobile (b : RuleBook) (id : MaterialId) : Bool := b.immobile.contains id

/-- A material without a density has none to speak of: zero. -/
def density (b : RuleBook) (id : MaterialId) : Binary32 := b.densities.get id.toFin

def handlerKey (b : RuleBook) (id : MaterialId) : Option String :=
  if b.isSpecial id then (b.catalog.get id).map Archetype.handlerKey else none

def ruleCount (b : RuleBook) (pass : Pass) : Nat :=
  MaterialId.all.foldr (fun id n => (b.rules pass id).length + n) 0

end RuleBook

end Sandfall
