import Sandfall.Proofs.Book

/-! The tables of a compiled rule are well formed: offsets and groups lie in range and no number was
narrowed to another, every slot is free or names an outcome, and outcomes respect what may not
move. -/

namespace Sandfall

namespace Expansion

theorem offsets_length (e : Expansion) : e.offsets.length = e.count := by
  unfold offsets count
  induction e.cells with
  | nil => rfl
  | cons x xs ih => simp [List.flatMap_cons, ih]

theorem mem_cells_of_mem_offsets {e : Expansion} {o : Int × Int} (h : o ∈ e.offsets) :
    o ∈ e.cells.map Prod.fst := by
  simp only [offsets, List.mem_flatMap, List.mem_replicate] at h
  obtain ⟨x, hx, -, rfl⟩ := h
  exact List.mem_map.mpr ⟨x, hx, rfl⟩

end Expansion

namespace Sampler

theorem offsets_once (os : List (Int × Int)) (starts : Option (List Nat)) :
    (Expansion.mk (once os) starts).offsets = os := by
  simp only [Expansion.offsets, once, List.flatMap_map]
  induction os with
  | nil => rfl
  | cons o os ih => simp

theorem runningStarts_length (start : Nat) (groups : List (List Offset)) :
    (runningStarts start groups).length = groups.length + 1 := by
  induction groups generalizing start with
  | nil => rfl
  | cons g gs ih => simp [runningStarts, ih]

/-- A group starts after all the groups before it. -/
theorem runningStarts_getElem? (start : Nat) (groups : List (List Offset)) (k : Nat)
    (hk : k ≤ groups.length) :
    (runningStarts start groups)[k]? = some (start + (groups.take k).flatten.length) := by
  induction groups generalizing start k with
  | nil =>
    obtain rfl : k = 0 := by simpa using hk
    rfl
  | cons g gs ih =>
    cases k with
    | zero => rfl
    | succ k =>
      rw [runningStarts, List.getElem?_cons_succ, ih (start + g.length) k (by simpa using hk)]
      simp [Nat.add_assoc]

/-- Two starts coincide exactly where a group is empty. -/
theorem runningStarts_any_eq (start : Nat) (groups : List (List Offset)) :
    (((runningStarts start groups).zip ((runningStarts start groups).drop 1)).any
      fun x => decide (x.1 = x.2)) = groups.any List.isEmpty := by
  induction groups generalizing start with
  | nil => rfl
  | cons g gs ih =>
    have hstep : ∀ s : List Nat, s.head? = some (start + g.length) →
        ((start :: s).zip s).any (fun x => decide (x.1 = x.2))
          = (g.isEmpty || (s.zip (s.drop 1)).any fun x => decide (x.1 = x.2)) := by
      intro s hs
      cases s with
      | nil => simp at hs
      | cons a s =>
        obtain rfl : a = start + g.length := by simpa using hs
        cases g with
        | nil => simp
        | cons o g => simp
    rw [runningStarts, List.drop_one, List.tail_cons, List.any_cons, ← ih (start + g.length)]
    apply hstep
    cases gs <;> rfl

theorem hasEmptyGroup_ordered (groups : List (List Offset)) :
    (expand (.ordered groups)).hasEmptyGroup = groups.any List.isEmpty :=
  runningStarts_any_eq 0 groups

theorem offsets_ordered (groups : List (List Offset)) :
    (expand (.ordered groups)).offsets = groups.flatten.map widen :=
  offsets_once _ _

theorem starts_eq_some {s : Sampler} {starts : List Nat} (h : s.expand.starts = some starts) :
    ∃ groups, s = .ordered groups ∧ starts = runningStarts 0 groups := by
  cases s with
  | ordered groups =>
    cases h
    exact ⟨groups, rfl, rfl⟩
  | _ => cases h

end Sampler

/-- Where groups start: at 0, each behind the one before, and the last number is their end. -/
structure CompiledRule.Grouped (starts : Array UInt16) (count : Nat) : Prop where
  two : 2 ≤ starts.size
  first : starts[0]? = some 0
  increasing : ∀ g, g + 1 < starts.size →
    (starts.getD g 0).toNat < (starts.getD (g + 1) 0).toNat
  last : (starts.getD (starts.size - 1) 0).toNat = count

theorem CompiledRule.Grouped.le_count {starts : Array UInt16} {count : Nat}
    (h : Grouped starts count) {g : Nat} (hg : g < starts.size) :
    (starts.getD g 0).toNat ≤ count := by
  obtain ⟨d, hd⟩ : ∃ d, starts.size - 1 = g + d := ⟨starts.size - 1 - g, by omega⟩
  induction d generalizing g with
  | zero =>
    rw [← h.last, hd]
    exact Nat.le_refl _
  | succ d ih =>
    have h1 := h.increasing g (by omega)
    have h2 := ih (g := g + 1) (by omega) (by omega)
    omega

def Outcome.WellFormed (b : RuleBook) (id : MaterialId) : Outcome → Prop
  | .noop => True
  | .stop => True
  | .transform this other p q =>
    (∀ i ∈ this, b.isKnown i) ∧ (∀ i ∈ other, b.isKnown i) ∧ p.isProbability ∧ q.isProbability
  | .swap p => b.isImmobile id = false ∧ p.isProbability
  | .densitySwap => b.isImmobile id = false
  | .directionSwap reach allow =>
    reach ≠ 0 ∧ (0 < reach → b.isImmobile id = false) ∧
      allow.contains MaterialId.outside = false ∧
        ∀ i, allow.contains i → b.isImmobile i = false

/-- What holds of every compiled rule of the material `id`. -/
structure CompiledRule.WellFormed (b : RuleBook) (id : MaterialId) (r : CompiledRule) : Prop where
  chance : r.chance.isProbability
  count : r.count.toNat = r.offsets.size
  listed : 0 < r.offsets.size
  groups : ∀ starts, r.starts = some starts → Grouped starts r.offsets.size
  draws : r.starts = none → 1 ≤ r.samples
  slots : ∀ m, r.slot m = noMatch ∨ (r.slot m).toNat < r.outcomes.size
  outside : r.slot MaterialId.outside = noMatch
  immobile : ∀ m, b.isImmobile m →
    r.slot m = noMatch ∨ (r.outcome (r.slot m)).movesCandidate = false
  outcomes : ∀ o ∈ r.outcomes, o.WellFormed b id

namespace Rule

variable {c : Catalog} {actor : Archetype} {r : Rule}

def compiledOutcomes (c : Catalog) (actor : Archetype) (r : Rule) : Array Outcome :=
  (r.outcomes.map (·.compile c actor)).toArray

theorem tables_outcomes : (r.tables c actor).outcomes = r.compiledOutcomes c actor := rfl

theorem tables_slot (id : MaterialId) :
    (r.tables c actor).slot id = slotFor c actor (r.compiledOutcomes c actor) r.matchers id :=
  RuleBook.get_ofFn (slotFor c actor (r.compiledOutcomes c actor) r.matchers) id

theorem tables_offsets_size :
    (r.tables c actor).offsets.size = r.sampler.expand.offsets.length := by
  simp [tables]

theorem Valid.offsets_length_le (h : r.Valid c actor) :
    r.sampler.expand.offsets.length ≤ 65535 := by
  rw [Expansion.offsets_length]
  exact h.listed.2

theorem Valid.tables_count (h : r.Valid c actor) :
    (r.tables c actor).count.toNat = r.sampler.expand.offsets.length := by
  have hle := h.offsets_length_le
  rw [Expansion.offsets_length] at hle ⊢
  exact UInt16.toNat_ofNat_of_lt' (Nat.lt_of_le_of_lt hle (by decide))

/-- The tables hold the described offsets, unaltered by the narrowing to bytes. -/
theorem Valid.tables_offset (h : r.Valid c actor) (k : Nat) :
    (r.tables c actor).offset k = r.sampler.expand.offsets.getD k (0, 0) := by
  simp only [CompiledRule.offset, tables, Array.getD_eq_getD_getElem?, List.getElem?_toArray,
    List.getD_eq_getElem?_getD, List.getElem?_map]
  cases hk : r.sampler.expand.offsets[k]? with
  | none => rfl
  | some o =>
    have ho := h.bytes o (Expansion.mem_cells_of_mem_offsets (List.mem_of_getElem? hk))
    simp only [Fault.fitsByte, Bool.and_eq_true, decide_eq_true_eq] at ho
    obtain ⟨⟨⟨h1, h2⟩, h3⟩, h4⟩ := ho
    simp only [Option.map_some, Option.getD_some, Int8.toInt_ofInt_of_le h1 (by omega),
      Int8.toInt_ofInt_of_le h3 (by omega)]

/-- What a matcher asks of a candidate: its predicate, and that its outcome does not carry off
something immobile. -/
def takes (c : Catalog) (actor : Archetype) (r : Rule) (id : MaterialId) (m : Matcher) : Bool :=
  !(((r.compiledOutcomes c actor).getD m.outcome.toNat .noop).movesCandidate && c.isImmobile id)
    && m.when.holds c actor id

theorem tables_slot_of_find?_eq_none {id : MaterialId}
    (h : r.matchers.find? (r.takes c actor id) = none) : (r.tables c actor).slot id = noMatch := by
  rw [tables_slot, slotFor]
  split
  · rfl
  · exact congrArg (fun o : Option Matcher => (o.map fun m => m.outcome.toUInt8).getD noMatch) h

theorem Valid.tables_slot_of_find?_eq_some (hv : r.Valid c actor) {id : MaterialId} {m : Matcher}
    (hid : id ≠ MaterialId.outside) (h : r.matchers.find? (r.takes c actor id) = some m) :
    ((r.tables c actor).slot id).toNat = m.outcome.toNat ∧
      (r.tables c actor).slot id ≠ noMatch := by
  have hlt := (hv.matchers m (List.mem_of_find?_eq_some h)).1
  have hfew : r.outcomes.length ≤ 254 := hv.few
  have hslot : (r.tables c actor).slot id = m.outcome.toUInt8 := by
    rw [tables_slot, slotFor, if_neg hid]
    exact congrArg (fun o : Option Matcher => (o.map fun m => m.outcome.toUInt8).getD noMatch) h
  have hnat : m.outcome.toUInt8.toNat = m.outcome.toNat := by
    rw [UInt64.toNat_toUInt8]
    omega
  rw [hslot]
  refine ⟨hnat, ?_⟩
  intro hno
  have : m.outcome.toUInt8.toNat = 255 := by rw [hno]; rfl
  omega

theorem tables_slot_outside : (r.tables c actor).slot MaterialId.outside = noMatch := by
  rw [tables_slot, slotFor, if_pos rfl]

theorem getD_compiledOutcomes {k : Nat} (hk : k < r.outcomes.length) :
    (r.compiledOutcomes c actor).getD k .noop = (r.outcomes[k]).compile c actor := by
  simp [compiledOutcomes, hk]

/-- A material has no slot, or that of a matcher that takes it. -/
theorem Valid.tables_slot_cases (hv : r.Valid c actor) (id : MaterialId) :
    (r.tables c actor).slot id = noMatch ∨
      ∃ m ∈ r.matchers, r.takes c actor id m ∧
        ((r.tables c actor).slot id).toNat = m.outcome.toNat := by
  by_cases hid : id = MaterialId.outside
  · exact .inl (hid ▸ tables_slot_outside)
  · cases hf : r.matchers.find? (r.takes c actor id) with
    | none => exact .inl (tables_slot_of_find?_eq_none hf)
    | some m =>
      exact .inr ⟨m, List.mem_of_find?_eq_some hf, List.find?_some hf,
        (hv.tables_slot_of_find?_eq_some hid hf).1⟩

/-- What is done to a material is the effect of a matcher that it meets. -/
theorem Valid.tables_outcome (hv : r.Valid c actor) {id : MaterialId}
    (h : (r.tables c actor).slot id ≠ noMatch) :
    ∃ m ∈ r.matchers, m.when.holds c actor id = true ∧ ∃ e, r.outcomes[m.outcome.toNat]? = some e ∧
      (r.tables c actor).outcome ((r.tables c actor).slot id) = e.compile c actor := by
  obtain hno | ⟨m, hm, htakes, hnat⟩ := hv.tables_slot_cases id
  · exact absurd hno h
  · have hlt := (hv.matchers m hm).1
    rw [takes, Bool.and_eq_true] at htakes
    refine ⟨m, hm, htakes.2, r.outcomes[m.outcome.toNat], List.getElem?_eq_getElem hlt, ?_⟩
    rw [CompiledRule.outcome, hnat, tables_outcomes, getD_compiledOutcomes hlt]

/-- Each group of an ordered rule starts after all the groups before it. -/
theorem Valid.tables_starts (hv : r.Valid c actor) {groups : List (List Offset)}
    (hs : r.sampler = .ordered groups) :
    ∃ starts, (r.tables c actor).starts = some starts ∧ starts.size = groups.length + 1 ∧
      ∀ k, k ≤ groups.length → (starts.getD k 0).toNat = (groups.take k).flatten.length := by
  have hlen := hv.offsets_length_le
  rw [hs, Sampler.offsets_ordered, List.length_map] at hlen
  refine ⟨((Sampler.runningStarts 0 groups).map UInt16.ofNat).toArray, ?_, ?_, ?_⟩
  · simp only [tables, hs]
    rfl
  · simp [Sampler.runningStarts_length]
  · intro k hk
    have hle : (groups.take k).flatten.length ≤ groups.flatten.length :=
      ((groups.take_prefix k).flatten).length_le
    simp only [Array.getD_eq_getD_getElem?, List.getElem?_toArray, List.getElem?_map,
      Sampler.runningStarts_getElem? 0 groups k hk, Option.map_some, Option.getD_some,
      Nat.zero_add]
    exact UInt16.toNat_ofNat_of_lt' (Nat.lt_of_le_of_lt (hle.trans hlen) (by decide))

theorem Valid.tables_grouped (hv : r.Valid c actor) {starts : Array UInt16}
    (h : (r.tables c actor).starts = some starts) :
    CompiledRule.Grouped starts r.sampler.expand.offsets.length := by
  have hpos := hv.listed.1
  rw [← Expansion.offsets_length] at hpos
  obtain ⟨groups, hs⟩ : ∃ groups, r.sampler = .ordered groups := by
    simp only [tables, Option.map_eq_some_iff] at h
    obtain ⟨ns, hns, -⟩ := h
    obtain ⟨groups, hs, -⟩ := Sampler.starts_eq_some hns
    exact ⟨groups, hs⟩
  obtain ⟨starts', hstarts, hsize, hget⟩ := hv.tables_starts hs
  obtain rfl : starts' = starts := Option.some.inj (hstarts.symm.trans h)
  rw [hs, Sampler.offsets_ordered, List.length_map] at hpos ⊢
  have hfull : ∀ g ∈ groups, g ≠ [] := by
    have hg := hv.groups
    rw [hs, Sampler.hasEmptyGroup_ordered, List.any_eq_false] at hg
    intro g hmem h
    exact hg g hmem (by rw [h]; rfl)
  refine ⟨?_, ?_, ?_, ?_⟩
  · rw [hsize]
    cases groups with
    | nil => simp at hpos
    | cons g gs => simp
  · have hzero : starts'.getD 0 0 = 0 := UInt16.toNat_inj.mp (hget 0 (Nat.zero_le _))
    rw [← hzero, Array.getD_eq_getD_getElem?, Array.getElem?_eq_getElem (by omega),
      Option.getD_some]
  · intro k hk
    rw [hsize] at hk
    have hk' : k < groups.length := by omega
    rw [hget k (by omega), hget (k + 1) (by omega), List.take_succ_eq_append_getElem hk']
    simp only [List.flatten_append, List.length_append, List.flatten_cons, List.flatten_nil,
      List.append_nil]
    have := List.length_pos_iff.mpr (hfull _ (List.getElem_mem hk'))
    omega
  · rw [hsize, Nat.add_sub_cancel, hget _ (Nat.le_refl _), List.take_length]

variable {b : RuleBook} {id : MaterialId}

theorem compile_wellFormed (hb : b.Reads c) (ha : c.get id = some actor) {e : Effect}
    (he : Fault.ofEffect? c actor e = none) : (e.compile c actor).WellFormed b id := by
  have himm : b.isImmobile id = actor.immobile := by
    rw [hb.immobile, Catalog.isImmobile, ha]
    rfl
  have hmover : Fault.ofMover? actor = none → b.isImmobile id = false := by
    intro h
    rw [himm]
    simpa [Fault.ofMover?] using h
  have htarget : ∀ {t : Option MaterialId}, Fault.ofTarget? c t = none →
      ∀ i ∈ t, b.isKnown i := by
    rintro (_ | t) ht i hi
    · cases hi
    · cases hi
      rw [hb.known]
      simpa [Fault.ofTarget?] using ht
  cases e with
  | noop => trivial
  | stop => trivial
  | transform this other p q =>
    simp only [Fault.ofEffect?, Option.or_eq_none_iff, Fault.ofChance?_eq_none] at he
    exact ⟨htarget he.1, htarget he.2.1, he.2.2.1, he.2.2.2⟩
  | swap p =>
    simp only [Fault.ofEffect?, Option.or_eq_none_iff, Fault.ofChance?_eq_none] at he
    exact ⟨hmover he.1, he.2⟩
  | densitySwap =>
    simp only [Fault.ofEffect?, Option.or_eq_none_iff] at he
    exact hmover he.1
  | directionSwap reach destination =>
    simp only [Effect.compile]
    split_ifs with hr
    · trivial
    · simp only [Fault.ofEffect?, if_neg hr, Option.or_eq_none_iff] at he
      refine ⟨hr, ?_, ?_, ?_⟩
      · intro hpos
        rw [if_pos hpos] at he
        exact hmover he.1
      · simp [landingSet]
      · intro i hi
        simp only [landingSet, IdSet.contains_ofPred, Bool.and_eq_true, Bool.not_eq_true'] at hi
        rw [hb.immobile]
        exact hi.1.2

theorem Valid.tables_wellFormed (hb : b.Reads c) (ha : c.get id = some actor)
    (hv : r.Valid c actor) : (r.tables c actor).WellFormed b id := by
  refine ⟨?_, ?_, ?_, ?_, ?_, ?_, tables_slot_outside, ?_, ?_⟩
  · obtain ⟨p, hp, hprob⟩ := hv.chance
    simpa [tables, hp] using hprob
  · rw [hv.tables_count, tables_offsets_size]
  · rw [tables_offsets_size, Expansion.offsets_length]
    exact hv.listed.1
  · intro starts hs
    rw [tables_offsets_size]
    exact hv.tables_grouped hs
  · intro hn
    have h0 := hv.draws (by simpa [tables] using hn)
    exact Nat.pos_of_ne_zero fun h => h0 (UInt8.toNat_inj.mp h)
  · intro m
    rcases hv.tables_slot_cases m with h | ⟨x, hx, -, h⟩
    · exact .inl h
    · refine .inr ?_
      rw [h]
      simpa [tables] using (hv.matchers x hx).1
  · intro m hm
    rcases hv.tables_slot_cases m with h | ⟨x, hx, ht, h⟩
    · exact .inl h
    · refine .inr ?_
      rw [hb.immobile] at hm
      simp only [takes, hm, Bool.and_true, Bool.and_eq_true, Bool.not_eq_true'] at ht
      rw [CompiledRule.outcome, h]
      exact ht.1
  · intro o ho
    simp only [tables, List.mem_toArray, List.mem_map] at ho
    obtain ⟨e, he, rfl⟩ := ho
    exact compile_wellFormed hb ha (hv.effects e he)

end Rule

theorem RuleBook.Reads.wellFormed {b : RuleBook} {c : Catalog} (hb : b.Reads c) {pass : Pass}
    {id : MaterialId} {r : CompiledRule} (hr : r ∈ b.rules pass id) : r.WellFormed b id := by
  obtain ⟨actor, ha, u, hu, -, rfl⟩ := hb.exists_rule hr
  exact (hb.valid id actor ha u hu).tables_wellFormed hb ha

theorem CompiledRule.flatOffsets_length (r : CompiledRule) :
    r.flatOffsets.length = 2 * r.offsets.size := by
  simp [flatOffsets, List.length_flatMap, Nat.mul_comm]

namespace RuleBook

/-- What is compiled is well formed, and a material is immobile or known where the catalog says
so. -/
theorem compiled_rules_are_well_formed {c : Catalog} {b : RuleBook} (hb : compile c = .ok b)
    {pass : Pass} {id : MaterialId} {r : CompiledRule} (hr : r ∈ b.rules pass id) :
    r.WellFormed b id ∧ 1 ≤ r.count.toNat ∧ r.flatOffsets.length = 2 * r.count.toNat ∧
      (∀ i, b.isImmobile i = c.isImmobile i) ∧ ∀ i, b.isKnown i = c.isKnown i := by
  have hreads := reads_of_compile hb
  have hwell := hreads.wellFormed hr
  refine ⟨hwell, ?_, ?_, hreads.immobile, hreads.known⟩
  · rw [hwell.count]
    exact hwell.listed
  · rw [r.flatOffsets_length, hwell.count]

/-- Sand has a rule that looks straight down. -/
theorem compiled_rules_are_well_formed_sand :
    ∃ b r, compile .builtin = .ok b ∧ r ∈ b.rules .falling Catalog.Builtin.sand ∧
      r.WellFormed b Catalog.Builtin.sand ∧ r.flatOffsets = [0, 1] := by
  obtain ⟨b, hb⟩ := compile_builtin
  have hrules : (b.rules .falling Catalog.Builtin.sand).map CompiledRule.flatOffsets
      = [[0, 1], [-1, 1, 1, 1]] := by
    refine eq_of_compile hb (f := fun b =>
      (b.rules .falling Catalog.Builtin.sand).map CompiledRule.flatOffsets) ?_
    decide +kernel
  obtain ⟨r, hr, hflat⟩ : ∃ r ∈ b.rules .falling Catalog.Builtin.sand, r.flatOffsets = [0, 1] :=
    List.mem_map.mp (hrules ▸ List.mem_cons_self)
  exact ⟨b, r, hb, hr, (compiled_rules_are_well_formed hb hr).1, hflat⟩

end RuleBook

end Sandfall
