import Sandfall.Catalog.Builtin
import Sandfall.RuleBook.Compile
import Sandfall.Proofs.Packing
import Mathlib.Tactic

/-! What a compiled rule book is. Its lists are the tables of the authored rules, in order and
restricted to the pass, its sets are read off the catalog, and every authored rule is without a
fault. Everything later about rule books starts from `rules_eq` and `Rule.Valid`. -/

namespace Sandfall

/-! Compilation is a map over lists that stops at the first error. -/

theorem mapM_eq_ok {α β ε : Type} {f : α → Except ε β} {g : α → β}
    (hf : ∀ x y, f x = .ok y → y = g x) :
    ∀ {xs : List α} {ys : List β}, xs.mapM f = .ok ys → ys = xs.map g ∧ ∀ x ∈ xs, f x = .ok (g x)
  | [], ys, h => by
    rw [List.mapM_nil] at h
    cases h
    exact ⟨rfl, by simp⟩
  | x :: xs, ys, h => by
    rw [List.mapM_cons] at h
    cases hx : f x with
    | error e => rw [hx] at h; cases h
    | ok y =>
      cases hxs : xs.mapM f with
      | error e => rw [hx, hxs] at h; cases h
      | ok zs =>
        rw [hx, hxs] at h
        cases h
        obtain ⟨rfl, hall⟩ := mapM_eq_ok hf hxs
        refine ⟨by rw [hf x y hx, List.map_cons], ?_⟩
        intro z hz
        rcases List.mem_cons.mp hz with rfl | hz
        · rw [hx, hf z y hx]
        · exact hall z hz

theorem mapM_eq_ok_of_forall {α β ε : Type} {f : α → Except ε β} {g : α → β} {xs : List α}
    (h : ∀ x ∈ xs, f x = .ok (g x)) : xs.mapM f = .ok (xs.map g) := by
  induction xs with
  | nil => rfl
  | cons x xs ih =>
    obtain ⟨hx, hxs⟩ := List.forall_mem_cons.mp h
    rw [List.mapM_cons, hx, ih hxs]
    rfl

namespace Catalog

theorem get_empty (id : MaterialId) : empty.get id = none := Vector.getElem_replicate _

theorem get_define (c : Catalog) (id : MaterialId) (a : Archetype) (j : MaterialId) :
    (c.define id a).get j = if id = j then some a else c.get j := by
  split_ifs with h
  · subst h
    exact Vector.getElem_set_self (UInt8.toNat_lt id)
  · exact Vector.getElem_set_ne (UInt8.toNat_lt id) (UInt8.toNat_lt j)
      fun heq => h (UInt8.toNat_inj.mp heq)

theorem lookup_filterMap {α : Type} (F : MaterialId → Option α) (ids : List MaterialId)
    (id : MaterialId) :
    (ids.filterMap fun i => (F i).map (i, ·)).lookup id = if id ∈ ids then F id else none := by
  induction ids with
  | nil => rfl
  | cons i ids ih =>
    by_cases hi : id = i
    · subst hi
      cases hF : F id with
      | none => simp [hF, ih]
      | some x => simp [hF]
    · cases hF : F i with
      | none => simp [hF, ih, hi]
      | some x => simp [hF, ih, hi, List.lookup_cons, beq_false_of_ne hi]

theorem lookup_entries {α : Type} (c : Catalog) (f : MaterialId → Archetype → α)
    (id : MaterialId) :
    (c.entries.map fun e => (e.1, f e.1 e.2)).lookup id = (c.get id).map (f id) := by
  have h : (c.entries.map fun e => (e.1, f e.1 e.2))
      = MaterialId.all.filterMap fun i => ((c.get i).map (f i)).map (i, ·) := by
    simp [entries, List.map_filterMap, Function.comp_def]
  rw [h, lookup_filterMap, if_pos (MaterialId.mem_all id)]

theorem mem_entries {c : Catalog} {id : MaterialId} {a : Archetype} :
    (id, a) ∈ c.entries ↔ c.get id = some a := by
  simp only [entries, List.mem_filterMap, Option.map_eq_some_iff, Prod.mk.injEq]
  constructor
  · rintro ⟨i, -, x, hx, rfl, rfl⟩
    exact hx
  · intro h
    exact ⟨id, MaterialId.mem_all id, a, h, rfl, rfl⟩

end Catalog

/-- An authored rule without a fault, as compilation demands of every rule. -/
structure Rule.Valid (c : Catalog) (actor : Archetype) (r : Rule) : Prop where
  few : r.outcomes.length ≤ maxOutcomes
  matchers : ∀ m ∈ r.matchers,
    m.outcome.toNat < r.outcomes.length ∧ m.when.missing? actor = none
  chance : ∃ p, r.chance.value actor = some p ∧ p.isProbability
  effects : ∀ e ∈ r.outcomes, Fault.ofEffect? c actor e = none
  listed : 0 < r.sampler.expand.count ∧ r.sampler.expand.count ≤ maxOffsets
  groups : r.sampler.expand.hasEmptyGroup = false
  draws : r.sampler.expand.starts = none → r.samples ≠ 0
  bytes : ∀ o ∈ r.sampler.expand.cells.map Prod.fst, Fault.fitsByte o

namespace Fault

theorem ofChance?_eq_none {p : Binary32} : ofChance? p = none ↔ p.isProbability := by
  simp [ofChance?]

theorem ofMatcher?_eq_none {actor : Archetype} {n : Nat} {m : Matcher} {place : Nat} :
    ofMatcher? actor n m place = none ↔ m.outcome.toNat < n ∧ m.when.missing? actor = none := by
  unfold ofMatcher?
  split_ifs with h
  · simp [h]
  · simp [ofPredicate?, Nat.lt_of_not_le h]

theorem ofRuleChance?_eq_none {actor : Archetype} {k : Chance} :
    ofRuleChance? actor k = none ↔ ∃ p, k.value actor = some p ∧ p.isProbability := by
  cases k with
  | literal p => simp [ofRuleChance?, Chance.value, ofChance?_eq_none]
  | property q =>
    cases h : actor.property q <;> simp [ofRuleChance?, Chance.value, h, ofChance?_eq_none]

theorem ofSampler?_eq_none {s : Sampler} {samples : UInt8} :
    ofSampler? s samples = none ↔
      (0 < s.expand.count ∧ s.expand.count ≤ maxOffsets) ∧ s.expand.hasEmptyGroup = false ∧
        (s.expand.starts = none → samples ≠ 0) ∧
          ∀ o ∈ s.expand.cells.map Prod.fst, fitsByte o := by
  simp only [ofSampler?]
  split_ifs with h1 h2
  · simp only [false_iff]
    rintro ⟨hc, hg, hs, -⟩
    rcases h1 with h | h | ⟨h, h'⟩
    · omega
    · rw [hg] at h
      exact Bool.false_ne_true h
    · exact hs (Option.isNone_iff_eq_none.mp h) h'
  · simp only [false_iff]
    rintro ⟨hc, -⟩
    omega
  · push Not at h1
    simp only [Option.map_eq_none_iff, List.find?_eq_none, Bool.not_eq_true', Bool.not_eq_false]
    constructor
    · intro h
      refine ⟨⟨by omega, by omega⟩, by simpa using h1.2.1, ?_, h⟩
      intro hn
      exact h1.2.2 (Option.isNone_iff_eq_none.mpr hn)
    · intro h
      exact h.2.2.2

theorem ofMatchers?_eq_none {actor : Archetype} {n : Nat} {ms : List Matcher} :
    (∀ x ∈ ms.zipIdx, ofMatcher? actor n x.1 x.2 = none) ↔
      ∀ m ∈ ms, m.outcome.toNat < n ∧ m.when.missing? actor = none := by
  simp only [ofMatcher?_eq_none]
  constructor
  · intro h m hm
    obtain ⟨i, hi⟩ := List.getElem_of_mem hm
    obtain ⟨hi, rfl⟩ := hi
    exact h (ms[i], i) (List.mk_mem_zipIdx_iff_getElem?.mpr (by simp [hi]))
  · rintro h ⟨m, i⟩ hmi
    exact h m (List.fst_mem_of_mem_zipIdx hmi)

theorem ofRule?_eq_none {c : Catalog} {actor : Archetype} {r : Rule} :
    ofRule? c actor r = none ↔ r.Valid c actor := by
  simp only [ofRule?, Option.or_eq_none_iff, ofMatchers?_eq_none, ofRuleChance?_eq_none,
    ofSampler?_eq_none, List.findSome?_eq_none_iff, ite_eq_right_iff, reduceCtorEq, imp_false,
    Nat.not_lt]
  constructor
  · rintro ⟨h1, h2, h3, h4, h5, h6, h7, h8⟩
    exact ⟨h1, h2, h3, h4, h5, h6, h7, h8⟩
  · rintro ⟨h1, h2, h3, h4, h5, h6, h7, h8⟩
    exact ⟨h1, h2, h3, h4, h5, h6, h7, h8⟩

end Fault

theorem Rule.compile_eq_ok {c : Catalog} {actor : Archetype} {r : Rule} {t : CompiledRule} :
    r.compile c actor = .ok t ↔ r.Valid c actor ∧ t = r.tables c actor := by
  rw [← Fault.ofRule?_eq_none]
  unfold Rule.compile
  split
  · next h => simp [h]
  · next h => simp [h, eq_comm]

/-- The tables of a material's rules, each with the passes it is tried in. -/
def Archetype.placed (c : Catalog) (actor : Archetype) : List (PassRestriction × CompiledRule) :=
  actor.rules.map fun r => (r.pass, r.tables c actor)

theorem Rule.placed_eq_ok {c : Catalog} {actor : Archetype} {x : Rule × Nat}
    {y : PassRestriction × CompiledRule}
    (h : (match x.1.compile c actor with
      | .ok t => Except.ok (x.1.pass, t)
      | .error f => .error (CompileError.mk actor.name x.2 f)) = .ok y) :
    x.1.Valid c actor ∧ y = (x.1.pass, x.1.tables c actor) := by
  cases ht : x.1.compile c actor with
  | error f =>
    rw [ht] at h
    cases h
  | ok t =>
    rw [ht] at h
    cases h
    obtain ⟨hv, rfl⟩ := Rule.compile_eq_ok.mp ht
    exact ⟨hv, rfl⟩

theorem Archetype.compile_eq_ok {c : Catalog} {actor : Archetype}
    {rs : List (PassRestriction × CompiledRule)} (h : actor.compile c = .ok rs) :
    rs = actor.placed c ∧ ∀ r ∈ actor.rules, r.Valid c actor := by
  obtain ⟨rfl, hall⟩ := mapM_eq_ok (fun x y hy => (Rule.placed_eq_ok hy).2) h
  constructor
  · rw [Archetype.placed]
    conv_rhs => rw [← List.zipIdx_map_fst 0 actor.rules, List.map_map]
    rfl
  · intro r hr
    obtain ⟨i, hi, rfl⟩ := List.getElem_of_mem hr
    have hmem : (actor.rules[i], i) ∈ actor.rules.zipIdx :=
      List.mk_mem_zipIdx_iff_getElem?.mpr (by simp [hi])
    exact (Rule.placed_eq_ok (hall _ hmem)).1

namespace RuleBook

theorem entry_eq_ok {c : Catalog} {e : MaterialId × Archetype}
    {y : MaterialId × List (PassRestriction × CompiledRule)}
    (h : (match e.2.compile c with
      | .ok rs => Except.ok (e.1, rs)
      | .error e => .error e) = .ok y) :
    (∀ r ∈ e.2.rules, r.Valid c e.2) ∧ y = (e.1, e.2.placed c) := by
  cases hrs : e.2.compile c with
  | error f =>
    rw [hrs] at h
    cases h
  | ok rs =>
    rw [hrs] at h
    cases h
    obtain ⟨rfl, hv⟩ := Archetype.compile_eq_ok hrs
    exact ⟨hv, rfl⟩

theorem compileAll_eq_ok {c : Catalog}
    {rs : List (MaterialId × List (PassRestriction × CompiledRule))} (h : compileAll c = .ok rs) :
    rs = c.entries.map (fun e => (e.1, e.2.placed c)) ∧
      ∀ id a, c.get id = some a → ∀ r ∈ a.rules, r.Valid c a := by
  obtain ⟨rfl, hall⟩ := mapM_eq_ok (fun e y hy => (entry_eq_ok hy).2) h
  refine ⟨rfl, ?_⟩
  intro id a ha
  exact (entry_eq_ok (hall _ (Catalog.mem_entries.mpr ha))).1

/-- A compiled book, its parts read off the catalog. -/
structure Reads (b : RuleBook) (c : Catalog) : Prop where
  catalog : b.catalog = c
  valid : ∀ id a, c.get id = some a → ∀ r ∈ a.rules, r.Valid c a
  rules : ∀ pass id, b.rules pass id =
    match c.get id with
    | none => []
    | some a => (a.rules.filter (·.pass.admits pass)).map (·.tables c a)
  known : ∀ id, b.isKnown id = c.isKnown id
  special : ∀ id, b.isSpecial id = (c.get id).any Archetype.isSpecial
  immobile : ∀ id, b.isImmobile id = c.isImmobile id
  density : ∀ id, b.density id = (c.property id .density).getD .zero

theorem get_ofFn {α : Type} (f : MaterialId → α) (id : MaterialId) :
    (Vector.ofFn fun i : Fin 256 => f (UInt8.ofNat i.val)).get id.toFin = f id := by
  have h : (Vector.ofFn fun i : Fin 256 => f (UInt8.ofNat i.val)).get id.toFin
      = f (UInt8.ofNat id.toNat) := Vector.getElem_ofFn _
  rw [h, UInt8.ofNat_toNat]

theorem passTable_lookup (compiled : List (MaterialId × List (PassRestriction × CompiledRule)))
    (pass : Pass) (id : MaterialId) :
    (passTable compiled pass).get id.toFin =
      match compiled.lookup (UInt8.ofNat id.toNat) with
      | none => []
      | some rs => (rs.filter fun r => r.1.admits pass).map Prod.snd :=
  Vector.getElem_ofFn _

theorem passTable_get (c : Catalog) (pass : Pass) (id : MaterialId) :
    (passTable (c.entries.map fun e => (e.1, e.2.placed c)) pass).get id.toFin =
      match c.get id with
      | none => []
      | some a => (a.rules.filter (·.pass.admits pass)).map (·.tables c a) := by
  rw [passTable_lookup, UInt8.ofNat_toNat, Catalog.lookup_entries c fun _ a => a.placed c]
  cases c.get id with
  | none => rfl
  | some a => simp [Archetype.placed, List.filter_map, Function.comp_def]

theorem reads_of_compile {c : Catalog} {b : RuleBook} (h : compile c = .ok b) : Reads b c := by
  unfold compile at h
  cases hrs : compileAll c with
  | error e => rw [hrs] at h; cases h
  | ok rs =>
    rw [hrs] at h
    cases h
    obtain ⟨rfl, hv⟩ := compileAll_eq_ok hrs
    refine ⟨rfl, hv, ?_, ?_, ?_, ?_, ?_⟩
    · intro pass id
      cases pass
      · exact passTable_get c .rising id
      · exact passTable_get c .falling id
    · intro id
      simp only [isKnown, IdSet.contains_ofPred]
    · intro id
      simp only [isSpecial, IdSet.contains_ofPred]
    · intro id
      simp only [isImmobile, IdSet.contains_ofPred]
    · intro id
      exact get_ofFn (fun id => (c.property id .density).getD .zero) id

theorem Reads.exists_rule {b : RuleBook} {c : Catalog} (hb : b.Reads c) {pass : Pass}
    {id : MaterialId} {r : CompiledRule} (hr : r ∈ b.rules pass id) :
    ∃ a, c.get id = some a ∧ ∃ u ∈ a.rules, u.pass.admits pass = true ∧ r = u.tables c a := by
  rw [hb.rules] at hr
  cases ha : c.get id with
  | none =>
    rw [ha] at hr
    cases hr
  | some a =>
    rw [ha] at hr
    obtain ⟨u, hu, rfl⟩ := List.mem_map.mp hr
    obtain ⟨hmem, hpass⟩ := List.mem_filter.mp hu
    exact ⟨a, rfl, u, hmem, hpass, rfl⟩

theorem exists_compile {c : Catalog}
    (h : ∀ id a, c.get id = some a → ∀ r ∈ a.rules, Fault.ofRule? c a r = none) :
    ∃ b, compile c = .ok b := by
  have hrules : ∀ e ∈ c.entries, e.2.compile c
      = .ok (e.2.rules.zipIdx.map fun r => (r.1.pass, r.1.tables c e.2)) := by
    intro e he
    apply mapM_eq_ok_of_forall
    intro r hr
    have hfault := h e.1 e.2 (Catalog.mem_entries.mp he) r.1 (List.fst_mem_of_mem_zipIdx hr)
    simp only [Rule.compile, hfault]
  have hall : compileAll c = .ok (c.entries.map fun e =>
      (e.1, e.2.rules.zipIdx.map fun r => (r.1.pass, r.1.tables c e.2))) := by
    apply mapM_eq_ok_of_forall
    intro e he
    simp only [hrules e he]
  rw [compile, hall]
  exact ⟨_, rfl⟩

/-- What a concrete catalog's book gives is found by compiling it. -/
theorem eq_of_compile {α : Type} {c : Catalog} {b : RuleBook} (hb : compile c = .ok b)
    {f : RuleBook → α} {x : α} (h : (compile c).toOption.map f = some x) : f b = x := by
  rw [hb] at h
  exact Option.some.inj h

theorem compile_builtin : ∃ b, compile Catalog.builtin = .ok b := by
  have hok : (compile Catalog.builtin).toOption.isSome = true := by decide +kernel
  cases h : compile Catalog.builtin with
  | error e =>
    rw [h] at hok
    cases hok
  | ok b => exact ⟨b, rfl⟩

end RuleBook

end Sandfall
