import Sandfall.Catalog.Bundle
import Sandfall.Proofs.Naming

/-! The order of a bundle's materials. Whether a bundle is accepted, what the catalog holds then and
where its names lead can be said of the materials without their order; and compilation reads a
catalog by its archetypes only. -/

namespace Sandfall

/-! What catalogs with the same archetypes have in common, whatever the order of their names. -/

section Congruence

variable {c c' : Catalog} (h : c.archetypes = c'.archetypes)

include h

namespace Catalog

theorem get_congr : c.get = c'.get := by
  funext id
  rw [get, get, h]

theorem tags_congr : c.tags = c'.tags := by
  funext id
  rw [tags, tags, get_congr h]

theorem property_congr : c.property = c'.property := by
  funext id p
  rw [property, property, get_congr h]

theorem isKnown_congr : c.isKnown = c'.isKnown := by
  funext id
  rw [isKnown, isKnown, get_congr h]

theorem isImmobile_congr : c.isImmobile = c'.isImmobile := by
  funext id
  rw [isImmobile, isImmobile, get_congr h]

theorem entries_congr : c.entries = c'.entries := by
  rw [entries, entries, get_congr h]

theorem manifest_congr : c.manifest = c'.manifest := by
  rw [manifest, manifest, entries_congr h]

end Catalog

namespace Predicate

omit h

mutual

theorem holds_congr (h : c.archetypes = c'.archetypes) (actor : Archetype) (id : MaterialId)
    (p : Predicate) : p.holds c actor id = p.holds c' actor id := by
  cases p with
  | always => rfl
  | ids members => rfl
  | anyTag tags => rw [holds, holds, Catalog.tags_congr h]
  | allTags tags => rw [holds, holds, Catalog.tags_congr h]
  | compare p op rhs => rw [holds, holds, Catalog.property_congr h]
  | not p => rw [holds, holds, holds_congr h actor id p]
  | all ps => rw [holds, holds, allHold_congr h actor id ps]
  | any ps => rw [holds, holds, anyHolds_congr h actor id ps]

theorem allHold_congr (h : c.archetypes = c'.archetypes) (actor : Archetype) (id : MaterialId)
    (ps : List Predicate) : allHold c actor id ps = allHold c' actor id ps := by
  cases ps with
  | nil => rfl
  | cons p ps => rw [allHold, allHold, holds_congr h actor id p, allHold_congr h actor id ps]

theorem anyHolds_congr (h : c.archetypes = c'.archetypes) (actor : Archetype) (id : MaterialId)
    (ps : List Predicate) : anyHolds c actor id ps = anyHolds c' actor id ps := by
  cases ps with
  | nil => rfl
  | cons p ps => rw [anyHolds, anyHolds, holds_congr h actor id p, anyHolds_congr h actor id ps]

end

end Predicate

variable (actor : Archetype)

theorem landingSet_congr (destination : Option Predicate) :
    landingSet c actor destination = landingSet c' actor destination := by
  simp only [landingSet, Catalog.isImmobile_congr h, Predicate.holds_congr h]

theorem Effect.compile_congr (e : Effect) : e.compile c actor = e.compile c' actor := by
  cases e with
  | directionSwap reach destination => rw [Effect.compile, Effect.compile, landingSet_congr h]
  | _ => rfl

theorem Rule.slotFor_congr (outcomes : Array Outcome) (ms : List Matcher) (id : MaterialId) :
    slotFor c actor outcomes ms id = slotFor c' actor outcomes ms id := by
  simp only [slotFor, Catalog.isImmobile_congr h, Predicate.holds_congr h]

theorem Rule.tables_congr (r : Rule) : r.tables c actor = r.tables c' actor := by
  simp only [tables, slotFor_congr h, Effect.compile_congr h]

theorem Fault.ofEffect?_congr : ofEffect? c actor = ofEffect? c' actor := by
  funext e
  cases e with
  | transform this other p q =>
    have htarget : ofTarget? c = ofTarget? c' := by
      funext t
      cases t with
      | none => rfl
      | some id => rw [ofTarget?, ofTarget?, Catalog.isKnown_congr h]
    rw [ofEffect?, ofEffect?, htarget]
  | _ => rfl

theorem Rule.compile_congr (r : Rule) : r.compile c actor = r.compile c' actor := by
  have hfault : Fault.ofRule? c actor r = Fault.ofRule? c' actor r := by
    rw [Fault.ofRule?, Fault.ofRule?, Fault.ofEffect?_congr h]
  rw [compile, compile, hfault, tables_congr h]

theorem Archetype.compile_congr : actor.compile c = actor.compile c' := by
  simp only [compile, Rule.compile_congr h]

omit actor

theorem RuleBook.compile_congr :
    compile c' = (compile c).map fun b => { b with catalog := c' } := by
  have hall : compileAll c' = compileAll c := by
    simp only [compileAll, Catalog.entries_congr h, Archetype.compile_congr h]
  rw [compile, compile, hall, Catalog.get_congr h, Catalog.isKnown_congr h,
    Catalog.isImmobile_congr h, Catalog.property_congr h]
  cases compileAll c with
  | error e => rfl
  | ok compiled => simp only [bind, Except.bind, pure, Except.pure, Except.map]

end Congruence

/-! What a bundle has to be, whatever its order. -/

namespace Catalog

variable {c d : Catalog} {m : BundleMaterial} {ms ms' : List BundleMaterial}

def defineBundled (c : Catalog) (ms : List BundleMaterial) : Catalog :=
  ms.foldl (fun c m => c.define m.id.toUInt8 m.archetype) c

/-- The materials can be inserted one after the other. -/
structure Admits (c : Catalog) (ms : List BundleMaterial) : Prop where
  ids : ∀ m ∈ ms, 1 ≤ m.id.toNat ∧ m.id.toNat ≤ 254
  distinctIds : (ms.map (·.id)).Nodup
  distinctNames : (ms.map (·.archetype.name)).Nodup
  free : ∀ m ∈ ms, c.get m.id.toUInt8 = none
  unnamed : ∀ m ∈ ms, c.idByName m.archetype.name = none

theorem Admits.perm (h : c.Admits ms) (hperm : ms.Perm ms') : c.Admits ms' where
  ids m hm := h.ids m (hperm.mem_iff.mpr hm)
  distinctIds := (hperm.map _).nodup_iff.mp h.distinctIds
  distinctNames := (hperm.map _).nodup_iff.mp h.distinctNames
  free m hm := h.free m (hperm.mem_iff.mpr hm)
  unnamed m hm := h.unnamed m (hperm.mem_iff.mpr hm)

theorem insertBundled_eq_ok_iff :
    c.insertBundled m = .ok d ↔
      (m.id.toNat ≤ 255 ∧ c.Takes m.id.toUInt8 m.archetype) ∧
        d = c.define m.id.toUInt8 m.archetype := by
  unfold insertBundled
  split_ifs with hrange
  · simp [Nat.not_le.mpr hrange]
  · rw [insert_eq_ok_iff, and_assoc, and_iff_right (Nat.not_lt.mp hrange)]

/-- The ids of a bundle that are bytes and not reserved. -/
theorem unreserved_iff {n : UInt16} :
    n.toNat ≤ 255 ∧ n.toUInt8 ≠ MaterialId.empty ∧ n.toUInt8 ≠ MaterialId.outside ↔
      1 ≤ n.toNat ∧ n.toNat ≤ 254 := by
  have hempty : MaterialId.empty.toNat = 0 := rfl
  have houtside : MaterialId.outside.toNat = 255 := rfl
  rw [ne_eq, ne_eq, ← UInt8.toNat_inj, ← UInt8.toNat_inj, UInt16.toNat_toUInt8, hempty, houtside]
  omega

theorem toUInt8_inj {m n : UInt16} (hm : m.toNat ≤ 255) (hn : n.toNat ≤ 255)
    (h : m.toUInt8 = n.toUInt8) : m = n := by
  rw [← UInt8.toNat_inj, UInt16.toNat_toUInt8, UInt16.toNat_toUInt8] at h
  rw [← UInt16.toNat_inj]
  omega

theorem admits_cons_iff :
    c.Admits (m :: ms) ↔ (m.id.toNat ≤ 255 ∧ c.Takes m.id.toUInt8 m.archetype) ∧
      (c.define m.id.toUInt8 m.archetype).Admits ms := by
  constructor
  · rintro ⟨hids, hdistinct, hnames, hfree, hunnamed⟩
    obtain ⟨hm, hids⟩ := List.forall_mem_cons.mp hids
    obtain ⟨hid, hdistinct⟩ := List.nodup_cons.mp hdistinct
    obtain ⟨hname, hnames⟩ := List.nodup_cons.mp hnames
    obtain ⟨hmfree, hfree⟩ := List.forall_mem_cons.mp hfree
    obtain ⟨hmunnamed, hunnamed⟩ := List.forall_mem_cons.mp hunnamed
    obtain ⟨hle, hempty, houtside⟩ := unreserved_iff.mpr hm
    refine ⟨⟨hle, hempty, houtside, hmfree, hmunnamed⟩, hids, hdistinct, hnames, ?_, ?_⟩
    · intro m' hm'
      have hne : m.id.toUInt8 ≠ m'.id.toUInt8 := by
        intro heq
        have hsame := toUInt8_inj hle (unreserved_iff.mpr (hids m' hm')).1 heq
        exact hid (List.mem_map.mpr ⟨m', hm', hsame.symm⟩)
      rw [get_define, if_neg hne, hfree m' hm']
    · intro m' hm'
      have hne : m'.archetype.name ≠ m.archetype.name :=
        fun heq => hname (List.mem_map.mpr ⟨m', hm', heq⟩)
      rw [idByName_define, if_neg hne, hunnamed m' hm']
  · rintro ⟨⟨hle, hempty, houtside, hmfree, hmunnamed⟩, hids, hdistinct, hnames, hfree, hunnamed⟩
    have hapart : ∀ m' ∈ ms, m.id ≠ m'.id ∧ c.get m'.id.toUInt8 = none := by
      intro m' hm'
      have hget := hfree m' hm'
      rw [get_define] at hget
      split_ifs at hget with hne
      exact ⟨fun heq => hne (heq ▸ rfl), hget⟩
    have hnamed : ∀ m' ∈ ms, m'.archetype.name ≠ m.archetype.name ∧
        c.idByName m'.archetype.name = none := by
      intro m' hm'
      have hlookup := hunnamed m' hm'
      rw [idByName_define] at hlookup
      split_ifs at hlookup with hne
      exact ⟨hne, hlookup⟩
    refine ⟨?_, List.nodup_cons.mpr ⟨?_, hdistinct⟩, List.nodup_cons.mpr ⟨?_, hnames⟩, ?_, ?_⟩
    · exact List.forall_mem_cons.mpr ⟨unreserved_iff.mp ⟨hle, hempty, houtside⟩, hids⟩
    · intro hmem
      obtain ⟨m', hm', heq⟩ := List.mem_map.mp hmem
      exact (hapart m' hm').1 heq.symm
    · intro hmem
      obtain ⟨m', hm', heq⟩ := List.mem_map.mp hmem
      exact (hnamed m' hm').1 heq
    · exact List.forall_mem_cons.mpr ⟨hmfree, fun m' hm' => (hapart m' hm').2⟩
    · exact List.forall_mem_cons.mpr ⟨hmunnamed, fun m' hm' => (hnamed m' hm').2⟩

theorem foldlM_insertBundled_eq_ok_iff :
    ms.foldlM insertBundled c = .ok d ↔ c.Admits ms ∧ d = c.defineBundled ms := by
  induction ms generalizing c with
  | nil =>
    have hnil : c.Admits [] := ⟨by simp, by simp, by simp, by simp, by simp⟩
    simp [hnil, defineBundled, pure, Except.pure, eq_comm]
  | cons m ms ih =>
    rw [List.foldlM_cons, admits_cons_iff, and_assoc]
    cases hm : c.insertBundled m with
    | error e =>
      refine iff_of_false nofun ?_
      rintro ⟨hm', -⟩
      rw [insertBundled_eq_ok_iff.mpr ⟨hm', rfl⟩] at hm
      cases hm
    | ok c' =>
      obtain ⟨hm', rfl⟩ := insertBundled_eq_ok_iff.mp hm
      exact ih.trans (and_iff_right hm').symm

theorem Admits.consistent (h : c.Admits ms) (hc : c.Consistent) :
    (c.defineBundled ms).Consistent := by
  induction ms generalizing c with
  | nil => exact hc
  | cons m ms ih =>
    obtain ⟨⟨-, htakes⟩, hms⟩ := admits_cons_iff.mp h
    exact ih hms (hc.define htakes)

theorem Admits.get_eq_some_iff (h : c.Admits ms) (id : MaterialId) (a : Archetype) :
    (c.defineBundled ms).get id = some a ↔
      c.get id = some a ∨ ∃ m ∈ ms, m.id.toNat = id.toNat ∧ m.archetype = a := by
  induction ms generalizing c with
  | nil => simp [defineBundled]
  | cons m ms ih =>
    obtain ⟨⟨hle, htakes⟩, hms⟩ := admits_cons_iff.mp h
    have hid : m.id.toUInt8 = id ↔ m.id.toNat = id.toNat := by
      rw [← UInt8.toNat_inj, UInt16.toNat_toUInt8]
      omega
    refine (ih hms).trans ?_
    rw [get_define, List.exists_mem_cons_iff, ← hid]
    by_cases hsame : m.id.toUInt8 = id
    · have hfree : c.get id = none := by rw [← hsame, htakes.free]
      simp [hsame, hfree]
    · simp [hsame]

theorem admits_empty_iff :
    empty.Admits ms ↔ (∀ m ∈ ms, 1 ≤ m.id.toNat ∧ m.id.toNat ≤ 254) ∧ (ms.map (·.id)).Nodup ∧
      (ms.map (·.archetype.name)).Nodup ∧ "empty" ∉ ms.map (·.archetype.name) := by
  have hunnamed : (∀ m ∈ ms, empty.idByName m.archetype.name = none) ↔
      "empty" ∉ ms.map (·.archetype.name) := by
    simp [idByName_empty]
  rw [← hunnamed]
  constructor
  · rintro ⟨hids, hdistinct, hnames, -, hunnamed⟩
    exact ⟨hids, hdistinct, hnames, hunnamed⟩
  · rintro ⟨hids, hdistinct, hnames, hunnamed⟩
    exact ⟨hids, hdistinct, hnames, fun m _ => get_empty _, hunnamed⟩

theorem ofBundle_eq_ok_iff : ofBundle ms = .ok c ↔ empty.Admits ms ∧ c = empty.defineBundled ms :=
  foldlM_insertBundled_eq_ok_iff

theorem archetypes_eq_of_get (h : ∀ id, c.get id = d.get id) : c.archetypes = d.archetypes := by
  refine Vector.ext fun i hi => ?_
  have hget := h (UInt8.ofNat i)
  simpa [get, Vector.get, Nat.mod_eq_of_lt hi] using hget

theorem Consistent.idByName_congr (hc : c.Consistent) (hd : d.Consistent)
    (h : c.archetypes = d.archetypes) (n : String) : c.idByName n = d.idByName n := by
  refine Option.ext fun id => ?_
  rw [hc.idByName_eq_some_iff, hd.idByName_eq_some_iff, get_congr h]

/-- A bundle is accepted if its ids lie between the reserved ones, no id and no name stands twice,
and none takes the name of the empty material; then the catalog holds its materials. The same
materials in another order are accepted just as well, and then the archetypes, the ids that names
lead to, the manifest and the compiled tables are the same. -/
theorem bundles_do_not_depend_on_order (ms : List BundleMaterial) :
    ((∃ c, ofBundle ms = .ok c) ↔ (∀ m ∈ ms, 1 ≤ m.id.toNat ∧ m.id.toNat ≤ 254) ∧
      (ms.map (·.id)).Nodup ∧ (ms.map (·.archetype.name)).Nodup ∧
      "empty" ∉ ms.map (·.archetype.name)) ∧
    (∀ c, ofBundle ms = .ok c → ∀ id a,
      c.get id = some a ↔ ∃ m ∈ ms, m.id.toNat = id.toNat ∧ m.archetype = a) ∧
    ∀ ms', ms.Perm ms' →
      ((∃ c, ofBundle ms = .ok c) ↔ ∃ c', ofBundle ms' = .ok c') ∧
      ∀ c c', ofBundle ms = .ok c → ofBundle ms' = .ok c' →
        c.archetypes = c'.archetypes ∧ (∀ n, c.idByName n = c'.idByName n) ∧
        c.manifest = c'.manifest ∧
        RuleBook.compile c' = (RuleBook.compile c).map fun b => { b with catalog := c' } := by
  have hsuccess : ∀ ms, (∃ c, ofBundle ms = .ok c) ↔ empty.Admits ms := by
    intro ms
    simp [ofBundle_eq_ok_iff]
  have hget : ∀ ms c, ofBundle ms = .ok c → ∀ id a,
      c.get id = some a ↔ ∃ m ∈ ms, m.id.toNat = id.toNat ∧ m.archetype = a := by
    intro ms c hc id a
    obtain ⟨hadmits, rfl⟩ := ofBundle_eq_ok_iff.mp hc
    rw [hadmits.get_eq_some_iff, get_empty]
    simp
  refine ⟨(hsuccess ms).trans admits_empty_iff, hget ms, fun ms' hperm => ⟨?_, ?_⟩⟩
  · rw [hsuccess, hsuccess]
    exact ⟨fun h => h.perm hperm, fun h => h.perm hperm.symm⟩
  · intro c c' hc hc'
    have hsame : c.archetypes = c'.archetypes := by
      refine archetypes_eq_of_get fun id => Option.ext fun a => ?_
      rw [hget ms c hc, hget ms' c' hc']
      simp only [hperm.mem_iff]
    obtain ⟨hadmits, hd⟩ := ofBundle_eq_ok_iff.mp hc
    obtain ⟨hadmits', hd'⟩ := ofBundle_eq_ok_iff.mp hc'
    have hconsistent : c.Consistent := hd ▸ hadmits.consistent consistent_empty
    have hconsistent' : c'.Consistent := hd' ▸ hadmits'.consistent consistent_empty
    exact ⟨hsame, hconsistent.idByName_congr hconsistent' hsame, manifest_congr hsame,
      RuleBook.compile_congr hsame⟩

/-- A material that would become one that nobody has. -/
def lost (id : UInt16) (name : String) : BundleMaterial where
  id := id
  archetype := {
    name
    color := 0
    rules := [{
      sampler := .own
      matchers := [⟨.always, 0⟩]
      outcomes := [.transform (some 99) none .one .one] }] }

/-- Two materials with a fault, in both orders: the one with the lower id is blamed. -/
theorem bundles_do_not_depend_on_order_lost :
    ∃ c c', ofBundle [lost 7 "shale", lost 3 "chalk"] = .ok c ∧
      ofBundle [lost 3 "chalk", lost 7 "shale"] = .ok c' ∧ c.archetypes = c'.archetypes ∧
      c.idByName "shale" = c'.idByName "shale" ∧ c.manifest = c'.manifest ∧
      RuleBook.compile c = .error ⟨"chalk", 0, .unknownMaterial 99⟩ ∧
      RuleBook.compile c' = .error ⟨"chalk", 0, .unknownMaterial 99⟩ := by
  have hperm : [lost 7 "shale", lost 3 "chalk"].Perm [lost 3 "chalk", lost 7 "shale"] :=
    .swap _ _ _
  obtain ⟨haccepted, -, horder⟩ := bundles_do_not_depend_on_order [lost 7 "shale", lost 3 "chalk"]
  obtain ⟨c, hc⟩ := haccepted.mpr (by decide +kernel)
  obtain ⟨hsuccess, hequal⟩ := horder _ hperm
  obtain ⟨c', hc'⟩ := hsuccess.mp ⟨c, hc⟩
  obtain ⟨harchetypes, hnames, hmanifest, hcompile⟩ := hequal c c' hc hc'
  have hblame : (ofBundle [lost 7 "shale", lost 3 "chalk"]).toOption.map
      (fun c => errorOf (RuleBook.compile c)) = some (some ⟨"chalk", 0, .unknownMaterial 99⟩) := by
    decide +kernel
  rw [hc] at hblame
  have herror := errorOf_eq_some_iff.mp (Option.some.inj hblame)
  refine ⟨c, c', hc, hc', harchetypes, hnames _, hmanifest, herror, ?_⟩
  rw [hcompile, herror]
  rfl

end Catalog

end Sandfall
