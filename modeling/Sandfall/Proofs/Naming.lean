import Sandfall.Proofs.Immobile
import Sandfall.Proofs.Verdict

/-! A catalog's names and its archetypes say the same. Insertion looks at the id and the name before
it changes anything, so it keeps this, and where it fails nothing has changed. The built-in
materials, which are defined without a look, could have been inserted one by one. -/

namespace Sandfall

namespace Catalog

variable {c d : Catalog} {id : MaterialId} {a : Archetype}

/-- The material can be inserted. -/
structure Takes (c : Catalog) (id : MaterialId) (a : Archetype) : Prop where
  ne_empty : id ≠ MaterialId.empty
  ne_outside : id ≠ MaterialId.outside
  free : c.get id = none
  unnamed : c.idByName a.name = none

theorem insert_eq_ok_iff : c.insert id a = .ok d ↔ c.Takes id a ∧ d = c.define id a := by
  unfold Catalog.insert
  constructor
  · intro h
    split_ifs at h with hreserved hfree hname
    rw [not_or] at hreserved
    rw [Option.not_isSome_iff_eq_none] at hfree hname
    exact ⟨⟨hreserved.1, hreserved.2, hfree, hname⟩, (Except.ok.inj h).symm⟩
  · rintro ⟨⟨hempty, houtside, hfree, hname⟩, rfl⟩
    simp [hempty, houtside, hfree, hname]

theorem idByName_empty (n : String) :
    empty.idByName n = if n = "empty" then some MaterialId.empty else none := by
  rw [idByName, empty, List.lookup_cons]
  by_cases hn : n = "empty"
  · simp [hn]
  · rw [if_neg hn, beq_false_of_ne hn]
    rfl

theorem idByName_define (c : Catalog) (id : MaterialId) (a : Archetype) (n : String) :
    (c.define id a).idByName n = if n = a.name then some id else c.idByName n := by
  rw [idByName, define, List.lookup_cons]
  by_cases hn : n = a.name
  · simp [hn]
  · rw [if_neg hn, beq_false_of_ne hn]
    rfl

/-- A name leads to an id just if the material of the id has the name. Nothing is stored at the
reserved ids. -/
structure Consistent (c : Catalog) : Prop where
  get_emptyId : c.get MaterialId.empty = none
  get_outside : c.get MaterialId.outside = none
  idByName_eq_some_iff : ∀ n id, c.idByName n = some id ↔
    id = MaterialId.empty ∧ n = "empty" ∨ ∃ a, c.get id = some a ∧ a.name = n

theorem consistent_empty : empty.Consistent where
  get_emptyId := get_empty _
  get_outside := get_empty _
  idByName_eq_some_iff n id := by
    rw [idByName_empty]
    by_cases hn : n = "empty"
    · simp [hn, get_empty, eq_comm]
    · simp [hn, get_empty]

theorem Consistent.define (hc : c.Consistent) (h : c.Takes id a) : (c.define id a).Consistent where
  get_emptyId := by rw [get_define, if_neg h.ne_empty, hc.get_emptyId]
  get_outside := by rw [get_define, if_neg h.ne_outside, hc.get_outside]
  idByName_eq_some_iff n j := by
    have hold := hc.idByName_eq_some_iff n j
    rw [idByName_define, get_define]
    by_cases hj : id = j
    · subst hj
      rw [h.free] at hold
      by_cases hn : n = a.name
      · simp [hn]
      · simpa [hn, h.ne_empty, eq_comm] using hold
    · rw [if_neg hj]
      by_cases hn : n = a.name
      · -- the new name was nobody's, the empty material's included
        rw [← hold, if_pos hn, hn, h.unnamed]
        simp [hj]
      · rw [if_neg hn, hold]

theorem Consistent.insert (hc : c.Consistent) (h : c.insert id a = .ok d) : d.Consistent := by
  obtain ⟨htakes, rfl⟩ := insert_eq_ok_iff.mp h
  exact hc.define htakes

theorem Consistent.insertList {ms : List (MaterialId × Archetype)} (hc : c.Consistent)
    (h : c.insertList ms = .ok d) : d.Consistent := by
  induction ms generalizing c with
  | nil =>
    cases h
    exact hc
  | cons m ms ih =>
    rw [Catalog.insertList, List.foldlM_cons] at h
    cases hm : c.insert m.1 m.2 with
    | error e =>
      simp only [hm] at h
      cases h
    | ok c' =>
      simp only [hm] at h
      exact ih (hc.insert hm) h

theorem consistent_builtin : builtin.Consistent := by
  have hok : (empty.insertList Builtin.materials).toOption.isSome = true := by decide +kernel
  cases h : empty.insertList Builtin.materials with
  | error e =>
    rw [h] at hok
    cases hok
  | ok d =>
    obtain ⟨-, rfl⟩ := Reached.empty.insertList h
    exact consistent_empty.insertList h

theorem Consistent.nodup_names (hc : c.Consistent) :
    ("empty" :: c.entries.map fun e => e.2.name).Nodup := by
  have hfind : ∀ e ∈ c.entries, c.idByName e.2.name = some e.1 := by
    rintro ⟨id, a⟩ he
    exact (hc.idByName_eq_some_iff _ _).mpr (.inr ⟨a, mem_entries.mp he, rfl⟩)
  refine List.nodup_cons.mpr ⟨fun hmem => ?_, ?_⟩
  · obtain ⟨e, he, hname⟩ := List.mem_map.mp hmem
    have hempty : c.idByName e.2.name = some MaterialId.empty :=
      (hc.idByName_eq_some_iff _ _).mpr (.inl ⟨rfl, hname⟩)
    have hid : e.1 = MaterialId.empty := Option.some.inj ((hfind e he).symm.trans hempty)
    have hget : c.get e.1 = some e.2 := mem_entries.mp he
    rw [hid, hc.get_emptyId] at hget
    cases hget
  · refine List.pairwise_map.mpr (c.pairwise_entries.imp_of_mem ?_)
    intro e e' he he' hlt hname
    have hid := (hfind e he).symm.trans (hname ▸ hfind e' he')
    rw [Option.some.inj hid] at hlt
    exact Nat.lt_irrefl _ hlt

/-! The same done in place. -/

/-- Insertion into the catalog at hand: two checks of the id, one of the name, then two changes. -/
def insertHere (id : MaterialId) (a : Archetype) : EStateM CatalogError Catalog Unit := do
  let c ← EStateM.get
  if id = MaterialId.empty ∨ id = MaterialId.outside then throw (.reservedId id)
  if (c.get id).isSome then throw (.duplicateId id)
  if (c.idByName a.name).isSome then throw (.duplicateName a.name)
  modify fun c => { c with names := (a.name, id) :: c.names }
  modify fun c => { c with archetypes := c.archetypes.set id.toNat (some a) (UInt8.toNat_lt id) }

/-- The insertion in place is the insertion; where it fails the catalog at hand stays. -/
theorem insertHere_run (c : Catalog) (id : MaterialId) (a : Archetype) :
    (insertHere id a).run c = match c.insert id a with
      | .ok d => .ok () d
      | .error e => .error e c := by
  have hget : EStateM.get c = (.ok c c : EStateM.Result CatalogError Catalog Catalog) := rfl
  simp only [insertHere, Catalog.insert, EStateM.run, bind, EStateM.bind, hget]
  split_ifs <;> rfl

def afterInsert (c : Catalog) (id : MaterialId) (a : Archetype) : Catalog :=
  match (insertHere id a).run c with
  | .ok () d => d
  | .error _ d => d

def afterInserts (c : Catalog) (ms : List (MaterialId × Archetype)) : Catalog :=
  ms.foldl (fun c m => c.afterInsert m.1 m.2) c

theorem Consistent.afterInsert (hc : c.Consistent) (id : MaterialId) (a : Archetype) :
    (c.afterInsert id a).Consistent := by
  rw [Catalog.afterInsert, insertHere_run]
  cases h : c.insert id a with
  | ok d => exact hc.insert h
  | error e => exact hc

theorem Consistent.afterInserts (hc : c.Consistent) (ms : List (MaterialId × Archetype)) :
    (c.afterInserts ms).Consistent := by
  induction ms generalizing c with
  | nil => exact hc
  | cons m ms ih => exact ih (hc.afterInsert m.1 m.2)

/-- After any insertions into the empty or the built-in catalog, successful or not, a name leads to
an id just if it is the name of the id's material, or the id is the empty material and the name its
own. So no name stands twice, and nothing is stored at the reserved ids. One more insertion stores
its material at its id and changes no other; where that cannot be done it changes nothing. -/
theorem names_lead_to_their_materials {c₀ c : Catalog} {ms : List (MaterialId × Archetype)}
    (h₀ : c₀ = empty ∨ c₀ = builtin) (hc : c = c₀.afterInserts ms) :
    (∀ n id, c.idByName n = some id ↔
      id = MaterialId.empty ∧ n = "empty" ∨ ∃ a, c.get id = some a ∧ a.name = n) ∧
    ("empty" :: c.entries.map fun e => e.2.name).Nodup ∧
    c.get MaterialId.empty = none ∧ c.get MaterialId.outside = none ∧
    ∀ id a,
      (c.Takes id a → ∃ d, c.insert id a = .ok d ∧ (insertHere id a).run c = .ok () d ∧
        ∀ j, d.get j = if id = j then some a else c.get j) ∧
      (¬ c.Takes id a → ∃ e d, c.insert id a = .error e ∧ (insertHere id a).run c = .error e d ∧
        d.archetypes = c.archetypes ∧ d.names = c.names) := by
  have hconsistent : c.Consistent := by
    rw [hc]
    rcases h₀ with rfl | rfl
    · exact consistent_empty.afterInserts ms
    · exact consistent_builtin.afterInserts ms
  refine ⟨hconsistent.idByName_eq_some_iff, hconsistent.nodup_names, hconsistent.get_emptyId,
    hconsistent.get_outside, fun id a => ⟨fun htakes => ?_, fun htakes => ?_⟩⟩
  · have hok := insert_eq_ok_iff.mpr ⟨htakes, rfl⟩
    exact ⟨c.define id a, hok, by rw [insertHere_run, hok], get_define c id a⟩
  · cases h : c.insert id a with
    | ok d => exact absurd (insert_eq_ok_iff.mp h).1 htakes
    | error e => exact ⟨e, c, rfl, by rw [insertHere_run, h], rfl, rfl⟩

/-- Reserved ids, an id that is taken and a name that is taken, in turn. Of the last insertion, with
the empty material's name, nothing is left either. -/
theorem names_lead_to_their_materials_goo :
    ∃ c, c = empty.afterInserts [(0, { name := "nothing", color := 0 }),
        (5, { name := "goo", color := 0 }), (5, { name := "goo2", color := 0 }),
        (6, { name := "goo", color := 0 }), (255, { name := "edge", color := 0 })] ∧
      c.idByName "goo" = some 5 ∧ c.idByName "goo2" = none ∧ c.idByName "empty" = some 0 ∧
      c.idByName "edge" = none ∧ c.get 0 = none ∧ c.get 255 = none ∧
      ∃ e d, c.insert 6 { name := "empty", color := 0 } = .error e ∧
        (insertHere 6 { name := "empty", color := 0 }).run c = .error e d ∧
        d.archetypes = c.archetypes ∧ d.names = c.names := by
  obtain ⟨c, hc⟩ : ∃ c, c = empty.afterInserts [(0, { name := "nothing", color := 0 }),
    (5, { name := "goo", color := 0 }), (5, { name := "goo2", color := 0 }),
    (6, { name := "goo", color := 0 }), (255, { name := "edge", color := 0 })] := ⟨_, rfl⟩
  obtain ⟨hnames, -, hempty, houtside, hinsert⟩ := names_lead_to_their_materials (.inl rfl) hc
  have hgoo : (c.get 5).map Archetype.name = some "goo" := by
    rw [hc]
    decide +kernel
  have hunknown : c.idByName "goo2" = none ∧ c.idByName "edge" = none := by
    rw [hc]
    decide +kernel
  obtain ⟨a, ha, hname⟩ := Option.map_eq_some_iff.mp hgoo
  have htaken : c.idByName "empty" = some 0 := (hnames _ _).mpr (.inl ⟨rfl, rfl⟩)
  refine ⟨c, hc, (hnames _ _).mpr (.inr ⟨a, ha, hname⟩), hunknown.1, htaken, hunknown.2, hempty,
    houtside, (hinsert 6 { name := "empty", color := 0 }).2 fun htakes => ?_⟩
  rw [htakes.unnamed] at htaken
  cases htaken

end Catalog

end Sandfall
