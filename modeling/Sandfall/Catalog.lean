import Sandfall.Archetype

/-!
A catalog holds the archetypes by id and an index of their names. Ids 0 and 255 are reserved, and no
id and no name is given out twice; the empty material keeps its name from the start.
-/

namespace Sandfall

inductive CatalogError where
  /-- The bundle's text is no bundle. -/
  | malformed
  | reservedId (id : MaterialId)
  | idOutOfRange (id : UInt16)
  | duplicateId (id : MaterialId)
  | duplicateName (name : String)
deriving DecidableEq

def CatalogError.message : CatalogError → String
  | .malformed => "content bundle parse error"
  | .reservedId id => s!"material id {id} is reserved"
  | .idOutOfRange id => s!"material id out of range: {id}"
  | .duplicateId id => s!"duplicate material id: {id}"
  | .duplicateName name => s!"duplicate material name: {name}"

structure Catalog where
  archetypes : Vector (Option Archetype) 256
  /-- Newest first. -/
  names : List (String × MaterialId)

namespace Catalog

def empty : Catalog := ⟨Vector.replicate 256 none, [("empty", MaterialId.empty)]⟩

instance : Inhabited Catalog := ⟨empty⟩

def get (c : Catalog) (id : MaterialId) : Option Archetype :=
  c.archetypes.get id.toFin

/-- The empty material, or one with an archetype. -/
def isKnown (c : Catalog) (id : MaterialId) : Bool := id = MaterialId.empty || (c.get id).isSome

def tags (c : Catalog) (id : MaterialId) : UInt32 := ((c.get id).map Archetype.tags).getD 0

def property (c : Catalog) (id : MaterialId) (p : Property) : Option Binary32 :=
  (c.get id).bind (·.property p)

def isImmobile (c : Catalog) (id : MaterialId) : Bool := (c.get id).any Archetype.immobile

def idByName (c : Catalog) (name : String) : Option MaterialId := c.names.lookup name

def entries (c : Catalog) : List (MaterialId × Archetype) :=
  MaterialId.all.filterMap fun id => (c.get id).map (id, ·)

def size (c : Catalog) : Nat := c.entries.length

def define (c : Catalog) (id : MaterialId) (a : Archetype) : Catalog where
  archetypes := c.archetypes.set id.toNat (some a) (UInt8.toNat_lt id)
  names := (a.name, id) :: c.names

def insert (c : Catalog) (id : MaterialId) (a : Archetype) : Except CatalogError Catalog :=
  if id = MaterialId.empty ∨ id = MaterialId.outside then .error (.reservedId id)
  else if (c.get id).isSome then .error (.duplicateId id)
  else if (c.idByName a.name).isSome then .error (.duplicateName a.name)
  else .ok (c.define id a)

end Catalog

end Sandfall
