import Sandfall.Catalog
import Sandfall.Rule.Json

/-!
Bundles of materials as JSON text, and the manifest of a catalog. A material is an object whose
coefficients stand among its other fields; materials are inserted in the order of the text.
-/

namespace Sandfall

open Json (Decoder)

/-- A material of a bundle, whose id may still be out of range. -/
structure BundleMaterial where
  id : UInt16
  archetype : Archetype

namespace BundleMaterial

def fieldNames : List String :=
  ["id", "name", "color", "tags", "immobile", "spawner", "creature", "handler", "rules"]

def movementNames : List String := ["gravity", "buoyancy", "liquid", "density", "randomWalk"]

def movementOf (f : Json.Fields) : Option Movement := do
  return {
    gravity := ← f.optional "gravity" Decoder.binary32
    buoyancy := ← f.optional "buoyancy" Decoder.binary32
    liquid := ← f.optional "liquid" Decoder.binary32
    density := ← f.optional "density" Decoder.binary32
    randomWalk := ← f.optional "randomWalk" Decoder.binary32 }

def decode : Decoder BundleMaterial := fun src j => do
  let (own, inner) ← Json.flattened? fieldNames movementNames src j
  let id ← own.required "id" Decoder.uint16
  let archetype : Archetype := {
    name := ← own.required "name" Decoder.text
    color := ← own.withDefault "color" 0 Decoder.uint32
    movement := ← movementOf inner
    tags := Tag.mask (← own.withDefault "tags" [] Tag.decode.list)
    immobile := ← own.withDefault "immobile" false Decoder.bool
    spawner := ← own.withDefault "spawner" false Decoder.bool
    creature := ← own.withDefault "creature" false Decoder.bool
    handler := ← own.optional "handler" Decoder.text
    rules := ← own.withDefault "rules" [] Rule.decode.list }
  return ⟨id, archetype⟩

end BundleMaterial

namespace Catalog

def insertBundled (c : Catalog) (m : BundleMaterial) : Except CatalogError Catalog :=
  if m.id.toNat > 255 then .error (.idOutOfRange m.id)
  else c.insert m.id.toUInt8 m.archetype

def ofBundle (ms : List BundleMaterial) : Except CatalogError Catalog :=
  ms.foldlM insertBundled empty

def bundleOf (src : Json.Source) (j : Json) : Option (List BundleMaterial) := do
  let f ← Json.record? ["materials"] src j
  f.required "materials" BundleMaterial.decode.list

def ofBundleText (s : String) : Except CatalogError Catalog :=
  match (Json.parse? s).bind (bundleOf .document) with
  | some ms => ofBundle ms
  | none => .error .malformed

/-- Adds every material of another catalog, in the order of their ids. -/
def insertAll (c other : Catalog) : Except CatalogError Catalog :=
  other.entries.foldlM (fun c (id, a) => c.insert id a) c

def manifestEntry (id : MaterialId) (a : Archetype) : Json :=
  .record [("id", .uint8 id), ("name", .text a.name), ("color", .nat a.color.toNat),
    ("tags", .nat a.tags.toNat), ("immobile", .bool a.immobile), ("special", .bool a.isSpecial)]

def manifest (c : Catalog) : String :=
  Json.render (.record [("formatVersion", .nat 1),
    ("materials", .list (fun (id, a) => manifestEntry id a) c.entries)])

end Catalog

end Sandfall
