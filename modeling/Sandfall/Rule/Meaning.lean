import Sandfall.Catalog

/-!
What predicates say of a candidate, and which coefficients of the acting material a rule asks for.
-/

namespace Sandfall

namespace Operand

def value (actor : Archetype) : Operand → Option Binary32
  | .literal x => some x
  | .own p => actor.property p

/-- The coefficient the acting material lacks. -/
def missing? (actor : Archetype) : Operand → Option Property
  | .literal _ => none
  | .own p => if (actor.property p).isNone then some p else none

end Operand

namespace Chance

def value (actor : Archetype) : Chance → Option Binary32
  | .literal p => some p
  | .property p => actor.property p

end Chance

namespace Predicate

mutual

/-- The predicate holds for a candidate of the given material. A candidate without the compared
coefficient never compares. -/
def holds (c : Catalog) (actor : Archetype) (id : MaterialId) : Predicate → Bool
  | .always => true
  | .ids members => members.contains id
  | .anyTag tags => c.tags id &&& Tag.mask tags != 0
  | .allTags tags => c.tags id &&& Tag.mask tags == Tag.mask tags
  | .compare p op rhs =>
    match c.property id p, rhs.value actor with
    | some x, some y => op.holds x y
    | _, _ => false
  | .not p => !holds c actor id p
  | .all ps => allHold c actor id ps
  | .any ps => anyHolds c actor id ps

def allHold (c : Catalog) (actor : Archetype) (id : MaterialId) : List Predicate → Bool
  | [] => true
  | p :: ps => holds c actor id p && allHold c actor id ps

def anyHolds (c : Catalog) (actor : Archetype) (id : MaterialId) : List Predicate → Bool
  | [] => false
  | p :: ps => holds c actor id p || anyHolds c actor id ps

end

mutual

/-- The first operand, from left to right, that the acting material lacks. -/
def missing? (actor : Archetype) : Predicate → Option Property
  | .compare _ _ rhs => rhs.missing? actor
  | .not p => missing? actor p
  | .all ps => firstMissing? actor ps
  | .any ps => firstMissing? actor ps
  | _ => none

def firstMissing? (actor : Archetype) : List Predicate → Option Property
  | [] => none
  | p :: ps => (missing? actor p).or (firstMissing? actor ps)

end

end Predicate

end Sandfall
