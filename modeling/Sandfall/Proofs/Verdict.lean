import Sandfall.Proofs.Samplers

/-! Which catalogs compile, and what is said of one that does not. A rule is acceptable if it meets
everything asked of it; what is asked of a rule is a list of demands, each with its fault, and the
first one that is not met is the fault reported. Among the rules of a catalog the first faulty one
is blamed, by ascending id and then by place. -/

namespace Sandfall

namespace Predicate

mutual

/-- The coefficients of the acting material that a predicate compares with, from left to right. -/
def asked : Predicate → List Property
  | .compare _ _ (.own p) => [p]
  | .not p => asked p
  | .all ps => askedOfAll ps
  | .any ps => askedOfAll ps
  | _ => []

def askedOfAll : List Predicate → List Property
  | [] => []
  | p :: ps => asked p ++ askedOfAll ps

end

mutual

/-- The first operand that is missing is the first coefficient asked for that is not defined. -/
theorem missing?_eq (actor : Archetype) (p : Predicate) :
    p.missing? actor = p.asked.find? fun q => (actor.property q).isNone := by
  match p with
  | .always | .ids _ | .anyTag _ | .allTags _ | .compare _ _ (.literal _) => rfl
  | .compare _ _ (.own q) =>
    cases h : actor.property q <;> simp [missing?, Operand.missing?, asked, h]
  | .not p => exact missing?_eq actor p
  | .all ps => exact firstMissing?_eq actor ps
  | .any ps => exact firstMissing?_eq actor ps

theorem firstMissing?_eq (actor : Archetype) (ps : List Predicate) :
    firstMissing? actor ps = (askedOfAll ps).find? fun q => (actor.property q).isNone := by
  match ps with
  | [] => rfl
  | p :: ps =>
    rw [firstMissing?, askedOfAll, List.find?_append, missing?_eq actor p,
      firstMissing?_eq actor ps]

end

/-- The acting material has all the coefficients that the predicate asks it for. -/
def Answered (actor : Archetype) (p : Predicate) : Prop :=
  ∀ q ∈ p.asked, (actor.property q).isSome

theorem missing?_eq_none_iff {actor : Archetype} {p : Predicate} :
    p.missing? actor = none ↔ p.Answered actor := by
  simp [missing?_eq, Answered, Option.isSome_iff_ne_none]

end Predicate

def Effect.Acceptable (c : Catalog) (actor : Archetype) : Effect → Prop
  | .noop => True
  | .stop => True
  | .transform this other p q =>
    (∀ id ∈ this, c.isKnown id) ∧ (∀ id ∈ other, c.isKnown id) ∧ p.isProbability ∧ q.isProbability
  | .swap p => actor.immobile = false ∧ p.isProbability
  | .densitySwap => actor.immobile = false ∧ (actor.property .density).isSome
  | .directionSwap reach destination =>
    reach ≠ 0 → (0 < reach → actor.immobile = false) ∧ ∀ p ∈ destination, p.Answered actor

structure Rule.Acceptable (c : Catalog) (actor : Archetype) (r : Rule) : Prop where
  few : r.outcomes.length ≤ 254
  matchers : ∀ m ∈ r.matchers,
    m.outcome.toNat < r.outcomes.length ∧ m.when.Answered actor
  chance : ∃ p, r.chance.value actor = some p ∧ p.isProbability
  effects : ∀ e ∈ r.outcomes, e.Acceptable c actor
  listed : 1 ≤ r.sampler.expand.offsets.length ∧ r.sampler.expand.offsets.length ≤ 65535
  bytes : ∀ o ∈ r.sampler.expand.offsets,
    (-128 ≤ o.1 ∧ o.1 ≤ 127) ∧ -128 ≤ o.2 ∧ o.2 ≤ 127
  groups : ∀ groups, r.sampler = .ordered groups → [] ∉ groups
  draws : (∀ groups, r.sampler ≠ .ordered groups) → 1 ≤ r.samples.toNat

namespace Fault

theorem ofTarget?_eq_none {c : Catalog} {t : Option MaterialId} :
    ofTarget? c t = none ↔ ∀ id ∈ t, c.isKnown id := by
  cases t <;> simp [ofTarget?]

theorem ofMover?_eq_none {actor : Archetype} : ofMover? actor = none ↔ actor.immobile = false := by
  simp [ofMover?]

theorem ofPredicate?_eq_none {actor : Archetype} {p : Predicate} :
    ofPredicate? actor p = none ↔ p.Answered actor := by
  simp [ofPredicate?, Predicate.missing?_eq_none_iff]

theorem ofEffect?_eq_none {c : Catalog} {actor : Archetype} {e : Effect} :
    ofEffect? c actor e = none ↔ e.Acceptable c actor := by
  cases e with
  | noop => simp [ofEffect?, Effect.Acceptable]
  | stop => simp [ofEffect?, Effect.Acceptable]
  | transform this other p q =>
    simp [ofEffect?, Effect.Acceptable, ofTarget?_eq_none, ofChance?_eq_none]
  | swap p => simp [ofEffect?, Effect.Acceptable, ofMover?_eq_none, ofChance?_eq_none]
  | densitySwap =>
    simp [ofEffect?, Effect.Acceptable, ofMover?_eq_none, Option.isSome_iff_ne_none]
  | directionSwap reach destination =>
    by_cases h : reach = 0
    · simp [ofEffect?, Effect.Acceptable, h]
    · simp [ofEffect?, Effect.Acceptable, h, ofMover?_eq_none, ofPredicate?_eq_none]

end Fault

namespace Sampler

/-- Whatever a sampler considers it lists at least once. -/
theorem copies_pos {s : Sampler} {x : (Int × Int) × Nat} (h : x ∈ s.expand.cells) : 0 < x.2 := by
  cases s with
  | radius r bias =>
    simp only [expand, List.mem_map] at h
    obtain ⟨o, -, rfl⟩ := h
    dsimp only
    split_ifs <;> omega
  | _ =>
    simp only [expand, once, List.mem_map] at h
    obtain ⟨o, -, rfl⟩ := h
    exact Nat.one_pos

theorem mem_offsets {s : Sampler} {o : Int × Int} :
    o ∈ s.expand.offsets ↔ o ∈ s.expand.cells.map Prod.fst := by
  refine ⟨Expansion.mem_cells_of_mem_offsets, ?_⟩
  intro h
  obtain ⟨x, hx, rfl⟩ := List.mem_map.mp h
  exact List.mem_flatMap.mpr ⟨x, hx, List.mem_replicate.mpr ⟨(copies_pos hx).ne', rfl⟩⟩

theorem find?_copies {p : Int × Int → Bool} {cells : List ((Int × Int) × Nat)}
    (h : ∀ x ∈ cells, 0 < x.2) :
    (cells.flatMap fun x => List.replicate x.2 x.1).find? p = (cells.map Prod.fst).find? p := by
  induction cells with
  | nil => rfl
  | cons x cells ih =>
    obtain ⟨hx, hcells⟩ := List.forall_mem_cons.mp h
    rw [List.flatMap_cons, List.find?_append, ih hcells, List.find?_replicate,
      if_neg (Nat.pos_iff_ne_zero.mp hx), List.map_cons, List.find?_cons]
    cases p x.1 <;> rfl

/-- The first offset of a kind is found in the list as among the cells. -/
theorem find?_offsets (s : Sampler) (p : Int × Int → Bool) :
    s.expand.offsets.find? p = (s.expand.cells.map Prod.fst).find? p :=
  find?_copies fun _ h => copies_pos h

theorem any_isEmpty_iff {groups : List (List Offset)} :
    groups.any List.isEmpty = true ↔ [] ∈ groups := by
  simp [List.any_eq_true]

theorem hasEmptyGroup_eq_false_iff {s : Sampler} :
    s.expand.hasEmptyGroup = false ↔ ∀ groups, s = .ordered groups → [] ∉ groups := by
  cases s with
  | ordered groups =>
    simp [hasEmptyGroup_ordered, ← Bool.not_eq_true, any_isEmpty_iff, -List.any_eq_true]
  | _ => simp [expand, Expansion.hasEmptyGroup]

theorem starts_eq_none_iff {s : Sampler} :
    s.expand.starts = none ↔ ∀ groups, s ≠ .ordered groups := by
  cases s <;> simp [expand]

end Sampler

theorem Fault.fitsByte_iff {o : Int × Int} :
    fitsByte o ↔ (-128 ≤ o.1 ∧ o.1 ≤ 127) ∧ -128 ≤ o.2 ∧ o.2 ≤ 127 := by
  simp [fitsByte, and_assoc]

theorem Rule.acceptable_iff {c : Catalog} {actor : Archetype} {r : Rule} :
    r.Acceptable c actor ↔ Fault.ofRule? c actor r = none := by
  rw [Fault.ofRule?_eq_none]
  constructor
  · intro h
    refine ⟨h.few, ?_, h.chance, ?_, ?_, ?_, ?_, ?_⟩
    · exact fun m hm => (h.matchers m hm).imp_right Predicate.missing?_eq_none_iff.mpr
    · exact fun e he => Fault.ofEffect?_eq_none.mpr (h.effects e he)
    · exact Expansion.offsets_length _ ▸ h.listed
    · exact Sampler.hasEmptyGroup_eq_false_iff.mpr h.groups
    · intro hstarts hzero
      have hdraws := h.draws (Sampler.starts_eq_none_iff.mp hstarts)
      rw [hzero] at hdraws
      exact absurd hdraws (by decide)
    · intro o ho
      exact Fault.fitsByte_iff.mpr (h.bytes o (Sampler.mem_offsets.mpr ho))
  · intro h
    refine ⟨h.few, ?_, h.chance, ?_, ?_, ?_, ?_, ?_⟩
    · exact fun m hm => (h.matchers m hm).imp_right Predicate.missing?_eq_none_iff.mp
    · exact fun e he => Fault.ofEffect?_eq_none.mp (h.effects e he)
    · rw [Expansion.offsets_length]
      exact h.listed
    · intro o ho
      exact Fault.fitsByte_iff.mp (h.bytes o (Sampler.mem_offsets.mp ho))
    · exact Sampler.hasEmptyGroup_eq_false_iff.mp h.groups
    · intro hordered
      have hdraws := h.draws (Sampler.starts_eq_none_iff.mpr hordered)
      exact Nat.pos_of_ne_zero fun hzero => hdraws (UInt8.toNat_inj.mp hzero)

/-- Something asked of a rule, and the fault of a rule that does not meet it. -/
structure Demand where
  met : Bool
  fault : Fault

namespace Demand

/-- The fault of the first demand that is not met. -/
def firstUnmet? (ds : List Demand) : Option Fault :=
  ds.findSome? fun d => if d.met then none else some d.fault

def ofProbability (p : Binary32) : Demand := ⟨p.isProbability, .chanceOutOfRange p⟩

def ofProperty (actor : Archetype) (p : Property) : Demand :=
  ⟨(actor.property p).isSome, .undefinedProperty p⟩

def ofTarget (c : Catalog) (id : MaterialId) : Demand := ⟨c.isKnown id, .unknownMaterial id⟩

def ofMobility (actor : Archetype) : Demand := ⟨!actor.immobile, .immobileMover⟩

def ofByte (o : Int × Int) : Demand := ⟨Fault.fitsByte o, .offsetOutOfRange o.1 o.2⟩

end Demand

def Predicate.demands (actor : Archetype) (p : Predicate) : List Demand :=
  p.asked.map (.ofProperty actor)

def Matcher.demands (actor : Archetype) (outcomes : Nat) (m : Matcher) (place : Nat) :
    List Demand :=
  ⟨m.outcome.toNat < outcomes, .outcomeOutOfRange place m.outcome.toNat outcomes⟩
    :: m.when.demands actor

def Chance.demands (actor : Archetype) : Chance → List Demand
  | .literal p => [.ofProbability p]
  | .property p => .ofProperty actor p :: (actor.property p).toList.map .ofProbability

def Effect.demands (c : Catalog) (actor : Archetype) : Effect → List Demand
  | .noop => []
  | .stop => []
  | .transform this other p q =>
    (this.toList ++ other.toList).map (.ofTarget c) ++ [.ofProbability p, .ofProbability q]
  | .swap p => [.ofMobility actor, .ofProbability p]
  | .densitySwap => [.ofMobility actor, .ofProperty actor .density]
  | .directionSwap reach destination =>
    if reach = 0 then []
    else (if 0 < reach then [.ofMobility actor] else [])
      ++ destination.toList.flatMap (·.demands actor)

/-- Something is listed, no group is empty, and something is drawn unless groups are walked. -/
def Sampler.yields (s : Sampler) (samples : UInt8) : Bool :=
  s.expand.offsets ≠ [] &&
    match s with
    | .ordered groups => [] ∉ groups
    | _ => samples ≠ 0

def Sampler.demands (s : Sampler) (samples : UInt8) : List Demand :=
  ⟨s.yields samples, .emptySampler⟩
    :: ⟨s.expand.offsets.length ≤ 65535, .tooManyOffsets s.expand.offsets.length⟩
    :: s.expand.offsets.map .ofByte

/-- All that is asked of a rule, in the order of asking. -/
def Rule.demands (c : Catalog) (actor : Archetype) (r : Rule) : List Demand :=
  ⟨r.outcomes.length ≤ 254, .tooManyOutcomes r.outcomes.length⟩
    :: r.matchers.zipIdx.flatMap (fun (m, i) => m.demands actor r.outcomes.length i)
    ++ r.chance.demands actor ++ r.outcomes.flatMap (·.demands c actor)
    ++ r.sampler.demands r.samples

namespace Demand

theorem firstUnmet?_nil : firstUnmet? [] = none := rfl

theorem firstUnmet?_cons (d : Demand) (ds : List Demand) :
    firstUnmet? (d :: ds) = (if d.met then none else some d.fault).or (firstUnmet? ds) := by
  rw [firstUnmet?, List.findSome?_cons]
  cases d.met <;> rfl

theorem firstUnmet?_append (ds es : List Demand) :
    firstUnmet? (ds ++ es) = (firstUnmet? ds).or (firstUnmet? es) :=
  List.findSome?_append

theorem firstUnmet?_flatMap {α : Type} (f : α → List Demand) (xs : List α) :
    firstUnmet? (xs.flatMap f) = xs.findSome? fun x => firstUnmet? (f x) := by
  induction xs with
  | nil => rfl
  | cons x xs ih =>
    rw [List.flatMap_cons, firstUnmet?_append, ih, List.findSome?_cons]
    cases firstUnmet? (f x) <;> rfl

theorem firstUnmet?_predicate (actor : Archetype) (p : Predicate) :
    firstUnmet? (p.demands actor) = Fault.ofPredicate? actor p := by
  rw [Fault.ofPredicate?, Predicate.missing?_eq, Predicate.demands, firstUnmet?,
    List.findSome?_map]
  induction p.asked with
  | nil => rfl
  | cons q qs ih =>
    rw [List.findSome?_cons, List.find?_cons, ih]
    cases h : actor.property q <;> simp [ofProperty, h]

theorem firstUnmet?_matcher (actor : Archetype) (n : Nat) (m : Matcher) (place : Nat) :
    firstUnmet? (m.demands actor n place) = Fault.ofMatcher? actor n m place := by
  rw [Matcher.demands, firstUnmet?_cons, firstUnmet?_predicate, Fault.ofMatcher?]
  by_cases h : m.outcome.toNat < n
  · simp [h, Nat.not_le_of_lt h]
  · simp [h, Nat.le_of_not_lt h]

theorem firstUnmet?_chance (actor : Archetype) (k : Chance) :
    firstUnmet? (k.demands actor) = Fault.ofRuleChance? actor k := by
  cases k with
  | literal p => cases h : p.isProbability <;>
      simp [Chance.demands, Fault.ofRuleChance?, Fault.ofChance?, firstUnmet?, ofProbability, h]
  | property q =>
    cases hq : actor.property q with
    | none => simp [Chance.demands, Fault.ofRuleChance?, firstUnmet?, ofProperty, hq]
    | some p => cases h : p.isProbability <;>
        simp [Chance.demands, Fault.ofRuleChance?, Fault.ofChance?, firstUnmet?, ofProperty,
          ofProbability, hq, h]

theorem firstUnmet?_probability (p : Binary32) :
    firstUnmet? [ofProbability p] = Fault.ofChance? p := by
  rw [firstUnmet?_cons, firstUnmet?_nil, Option.or_none]
  rfl

theorem firstUnmet?_mobility (actor : Archetype) :
    firstUnmet? [ofMobility actor] = Fault.ofMover? actor := by
  rw [firstUnmet?_cons, firstUnmet?_nil, Option.or_none]
  cases h : actor.immobile <;> simp [ofMobility, Fault.ofMover?, h]

theorem firstUnmet?_target (c : Catalog) (t : Option MaterialId) :
    firstUnmet? (t.toList.map (ofTarget c)) = Fault.ofTarget? c t := by
  cases t with
  | none => rfl
  | some id =>
    simp only [Option.toList_some, List.map_cons, List.map_nil, firstUnmet?_cons,
      firstUnmet?_nil, Option.or_none]
    rfl

theorem firstUnmet?_effect (c : Catalog) (actor : Archetype) (e : Effect) :
    firstUnmet? (e.demands c actor) = Fault.ofEffect? c actor e := by
  cases e with
  | noop => rfl
  | stop => rfl
  | transform this other p q =>
    rw [Effect.demands, Fault.ofEffect?, List.map_append, firstUnmet?_append, firstUnmet?_append,
      firstUnmet?_target, firstUnmet?_target, ← List.singleton_append, firstUnmet?_append,
      firstUnmet?_probability, firstUnmet?_probability, Option.or_assoc]
  | swap p =>
    rw [Effect.demands, Fault.ofEffect?, ← List.singleton_append, firstUnmet?_append,
      firstUnmet?_mobility, firstUnmet?_probability]
  | densitySwap =>
    rw [Effect.demands, Fault.ofEffect?, ← List.singleton_append, firstUnmet?_append,
      firstUnmet?_mobility, firstUnmet?_cons, firstUnmet?_nil, Option.or_none]
    cases h : actor.property .density <;> simp [ofProperty, h]
  | directionSwap reach destination =>
    rw [Effect.demands, Fault.ofEffect?]
    split_ifs with hzero hpos
    · rfl
    · rw [firstUnmet?_append, firstUnmet?_mobility]
      cases destination <;> simp [firstUnmet?_predicate, firstUnmet?_nil]
    · cases destination <;> simp [firstUnmet?_predicate, firstUnmet?_nil]

theorem firstUnmet?_bytes (os : List (Int × Int)) :
    firstUnmet? (os.map ofByte)
      = (os.find? fun o => !Fault.fitsByte o).map fun o => .offsetOutOfRange o.1 o.2 := by
  induction os with
  | nil => rfl
  | cons o os ih =>
    rw [List.map_cons, firstUnmet?_cons, ih, List.find?_cons]
    cases h : Fault.fitsByte o <;> simp [ofByte, h]

theorem yields_iff (s : Sampler) (samples : UInt8) :
    s.yields samples = true ↔ ¬(s.expand.count = 0 ∨ s.expand.hasEmptyGroup ∨
      (s.expand.starts.isNone ∧ samples = 0)) := by
  rw [← Expansion.offsets_length, List.length_eq_zero_iff]
  -- Only an ordered sampler has groups, and it is drawn from without samples.
  by_cases hordered : ∃ groups, s = .ordered groups
  · obtain ⟨groups, rfl⟩ := hordered
    have hstarts : (Sampler.ordered groups).expand.starts.isNone = false := rfl
    simp only [Sampler.yields, Sampler.hasEmptyGroup_ordered, hstarts, Sampler.any_isEmpty_iff]
    simp
  · have hstarts : s.expand.starts = none :=
      Sampler.starts_eq_none_iff.mpr (not_exists.mp hordered)
    have hgroups : s.expand.hasEmptyGroup = false := by rw [Expansion.hasEmptyGroup, hstarts]
    have hyields : s.yields samples = (decide (s.expand.offsets ≠ []) && decide (samples ≠ 0)) := by
      cases s with
      | ordered groups => exact absurd ⟨groups, rfl⟩ hordered
      | _ => rfl
    simp [hyields, hstarts, hgroups]

theorem firstUnmet?_sampler (s : Sampler) (samples : UInt8) :
    firstUnmet? (s.demands samples) = Fault.ofSampler? s samples := by
  have hyields := yields_iff s samples
  simp only [Sampler.demands, firstUnmet?_cons, firstUnmet?_bytes, Sampler.find?_offsets,
    Fault.ofSampler?, Expansion.offsets_length, decide_eq_true_eq]
  by_cases hnone : s.yields samples = true
  · rw [if_pos hnone, if_neg (hyields.mp hnone)]
    by_cases hfew : s.expand.count ≤ 65535
    · have hmany : ¬maxOffsets < s.expand.count := Nat.not_lt_of_le hfew
      rw [if_pos hfew, if_neg hmany]
      rfl
    · have hmany : maxOffsets < s.expand.count := Nat.lt_of_not_le hfew
      rw [if_neg hfew, if_pos hmany]
      rfl
  · rw [if_neg hnone, if_pos (not_not.mp (hnone ∘ hyields.mpr))]
    rfl

theorem firstUnmet?_rule (c : Catalog) (actor : Archetype) (r : Rule) :
    firstUnmet? (r.demands c actor) = Fault.ofRule? c actor r := by
  simp only [Rule.demands, List.cons_append, firstUnmet?_cons, firstUnmet?_append,
    firstUnmet?_flatMap, firstUnmet?_matcher, firstUnmet?_chance, firstUnmet?_effect,
    firstUnmet?_sampler, Fault.ofRule?, Option.or_assoc]
  congr 1
  by_cases h : r.outcomes.length ≤ 254
  · simp [h, maxOutcomes, Nat.not_lt_of_le h]
  · simp [h, maxOutcomes, Nat.lt_of_not_le h]

end Demand

def errorOf {ε α : Type} : Except ε α → Option ε
  | .ok _ => none
  | .error e => some e

theorem errorOf_eq_none_iff {ε α : Type} {x : Except ε α} : errorOf x = none ↔ ∃ a, x = .ok a := by
  cases x <;> simp [errorOf]

theorem errorOf_eq_some_iff {ε α : Type} {x : Except ε α} {e : ε} :
    errorOf x = some e ↔ x = .error e := by
  cases x <;> simp [errorOf]

theorem errorOf_mapM {ε α β : Type} (f : α → Except ε β) (xs : List α) :
    errorOf (xs.mapM f) = xs.findSome? fun x => errorOf (f x) := by
  induction xs with
  | nil => rfl
  | cons x xs ih =>
    rw [List.mapM_cons, List.findSome?_cons, ← ih]
    cases f x with
    | error e => rfl
    | ok y => cases xs.mapM f <;> rfl

/-- In a list in order of its keys, what is found first is found at the least key. -/
theorem findSome?_eq_some_iff_least {α β : Type} {key : α → Nat} {xs : List α}
    (h : xs.Pairwise fun x y => key x < key y) {f : α → Option β} {b : β} :
    xs.findSome? f = some b ↔
      ∃ x ∈ xs, f x = some b ∧ ∀ y ∈ xs, key y < key x → f y = none := by
  rw [List.findSome?_eq_some_iff]
  constructor
  · rintro ⟨before, x, after, rfl, hx, hnone⟩
    refine ⟨x, by simp, hx, ?_⟩
    intro y hy hlt
    rw [List.pairwise_append, List.pairwise_cons] at h
    obtain ⟨-, ⟨hafter, -⟩, -⟩ := h
    rcases List.mem_append.mp hy with hy | hy
    · exact hnone y hy
    · rcases List.mem_cons.mp hy with rfl | hy
      · omega
      · have := hafter y hy
        omega
  · rintro ⟨x, hx, hfx, hleast⟩
    obtain ⟨before, after, rfl⟩ := List.append_of_mem hx
    refine ⟨before, x, after, rfl, hfx, ?_⟩
    intro y hy
    rw [List.pairwise_append] at h
    exact hleast y (List.mem_append_left _ hy) (h.2.2 y hy x List.mem_cons_self)

theorem pairwise_zipIdx {α : Type} (xs : List α) :
    xs.zipIdx.Pairwise fun x y => x.2 < y.2 := by
  have h : (xs.zipIdx.map Prod.snd).Pairwise (· < ·) := by
    rw [List.zipIdx_map_snd]
    exact List.pairwise_lt_range'
  exact List.pairwise_map.mp h

theorem Catalog.pairwise_entries (c : Catalog) :
    c.entries.Pairwise fun e e' => e.1.toNat < e'.1.toNat := by
  have hall : MaterialId.all.Pairwise fun i j => i.toNat < j.toNat := by
    refine List.pairwise_map.mpr (List.pairwise_lt_range.imp_of_mem ?_)
    intro i j hi hj hlt
    rw [UInt8.toNat_ofNat_of_lt' (List.mem_range.mp hi),
      UInt8.toNat_ofNat_of_lt' (List.mem_range.mp hj)]
    exact hlt
  refine hall.filterMap _ ?_
  rintro i j hlt e he e' he'
  obtain ⟨a, -, rfl⟩ := Option.map_eq_some_iff.mp he
  obtain ⟨a', -, rfl⟩ := Option.map_eq_some_iff.mp he'
  exact hlt

theorem Rule.errorOf_compile (c : Catalog) (actor : Archetype) (r : Rule) :
    errorOf (r.compile c actor) = Fault.ofRule? c actor r := by
  unfold Rule.compile
  split <;> simp_all [errorOf]

theorem Archetype.errorOf_compile (c : Catalog) (a : Archetype) :
    errorOf (a.compile c) = a.rules.zipIdx.findSome? fun x =>
      (Fault.ofRule? c a x.1).map (CompileError.mk a.name x.2) := by
  rw [Archetype.compile, errorOf_mapM]
  congr 1
  funext x
  obtain ⟨r, i⟩ := x
  rw [← Rule.errorOf_compile]
  dsimp only
  cases r.compile c a <;> rfl

theorem RuleBook.errorOf_compile (c : Catalog) :
    errorOf (compile c) = c.entries.findSome? fun e => errorOf (e.2.compile c) := by
  have h : errorOf (compile c) = errorOf (compileAll c) := by
    rw [compile]
    cases compileAll c <;> rfl
  rw [h, compileAll, errorOf_mapM]
  congr 1
  funext e
  obtain ⟨id, a⟩ := e
  dsimp only
  cases a.compile c <;> rfl

theorem Archetype.compile_eq_error_iff {c : Catalog} {a : Archetype} {e : CompileError} :
    a.compile c = .error e ↔ ∃ r, a.rules[e.rule]? = some r ∧ e.material = a.name ∧
      Fault.ofRule? c a r = some e.fault ∧
      ∀ j r', j < e.rule → a.rules[j]? = some r' → r'.Acceptable c a := by
  obtain ⟨material, rule, fault⟩ := e
  simp only [← errorOf_eq_some_iff, errorOf_compile,
    findSome?_eq_some_iff_least (pairwise_zipIdx _), Prod.exists, List.mk_mem_zipIdx_iff_getElem?, Prod.forall, Option.map_eq_some_iff,
    Option.map_eq_none_iff, CompileError.mk.injEq, ← Rule.acceptable_iff]
  constructor
  · rintro ⟨r, i, hr, ⟨f, hf, rfl, rfl, rfl⟩, hfirst⟩
    exact ⟨r, hr, rfl, hf, fun j r' hj hr' => hfirst r' j hr' hj⟩
  · rintro ⟨r, hr, rfl, hf, hfirst⟩
    exact ⟨r, rule, hr, ⟨fault, hf, rfl, rfl, rfl⟩, fun r' j hr' hj => hfirst j r' hj hr'⟩

theorem Archetype.errorOf_compile_eq_none_iff {c : Catalog} {a : Archetype} :
    errorOf (a.compile c) = none ↔ ∀ r ∈ a.rules, r.Acceptable c a := by
  simp only [errorOf_compile, List.findSome?_eq_none_iff, Option.map_eq_none_iff,
    ← Rule.acceptable_iff]
  constructor
  · intro h r hr
    obtain ⟨i, hi⟩ := List.mem_iff_getElem?.mp hr
    exact h (r, i) (List.mk_mem_zipIdx_iff_getElem?.mpr hi)
  · rintro h ⟨r, i⟩ hr
    exact h r (List.fst_mem_of_mem_zipIdx hr)

/-- Compilation accepts exactly the catalogs all of whose rules are acceptable. Otherwise it names
the material of the least id that has an unacceptable rule, that material's first unacceptable
rule, and the fault of the first demand which that rule does not meet. -/
theorem RuleBook.compile_accepts_or_blames_the_first (c : Catalog) :
    ((∃ b, compile c = .ok b) ↔
      ∀ id a, c.get id = some a → ∀ r ∈ a.rules, r.Acceptable c a) ∧
    ∀ e, compile c = .error e ↔
      ∃ id a r, c.get id = some a ∧ a.rules[e.rule]? = some r ∧ e.material = a.name ∧
        Demand.firstUnmet? (r.demands c a) = some e.fault ∧
        (∀ j r', j < e.rule → a.rules[j]? = some r' → r'.Acceptable c a) ∧
        ∀ id' a', id' < id → c.get id' = some a' → ∀ r' ∈ a'.rules, r'.Acceptable c a' := by
  constructor
  · simp only [← errorOf_eq_none_iff, errorOf_compile, List.findSome?_eq_none_iff, Prod.forall,
      Catalog.mem_entries, Archetype.errorOf_compile_eq_none_iff]
  · intro e
    simp only [← errorOf_eq_some_iff, errorOf_compile,
      findSome?_eq_some_iff_least c.pairwise_entries, Prod.exists, Prod.forall, Catalog.mem_entries,
      Archetype.errorOf_compile_eq_none_iff, Demand.firstUnmet?_rule]
    constructor
    · rintro ⟨id, a, ha, he, hleast⟩
      obtain ⟨r, hr, hname, hf, hfirst⟩ :=
        Archetype.compile_eq_error_iff.mp (errorOf_eq_some_iff.mp he)
      exact ⟨id, a, r, ha, hr, hname, hf, hfirst,
        fun id' a' hid ha' => hleast id' a' ha' (UInt8.lt_iff_toNat_lt.mp hid)⟩
    · rintro ⟨id, a, r, ha, hr, hname, hf, hfirst, hleast⟩
      exact ⟨id, a, ha, errorOf_eq_some_iff.mpr
          (Archetype.compile_eq_error_iff.mpr ⟨r, hr, hname, hf, hfirst⟩),
        fun id' a' ha' hid => hleast id' a' (UInt8.lt_iff_toNat_lt.mpr hid) ha'⟩

end Sandfall
