import Sandfall.Proofs.Authored
import Sandfall.Proofs.Tables
import Sandfall.Proofs.Turns

/-! The tables of a rule book say what the authored rules say. Each function on tables equals its
counterpart on rules, from the outcome of one candidate up to the turn of a cell. -/

namespace Sandfall

namespace Catalog

theorem get_outside_foldl {ms : List (MaterialId × Archetype)} (h : ∀ m ∈ ms, m.1 ≠ MaterialId.outside)
    (c : Catalog) :
    (ms.foldl (fun c (id, a) => c.define id a) c).get MaterialId.outside
      = c.get MaterialId.outside := by
  induction ms generalizing c with
  | nil => rfl
  | cons m ms ih =>
    obtain ⟨hm, hms⟩ := List.forall_mem_cons.mp h
    rw [List.foldl_cons, ih hms, get_define, if_neg hm]

theorem Reached.get_outside {c : Catalog} (h : c.Reached) : c.get MaterialId.outside = none := by
  induction h with
  | empty => exact get_empty _
  | builtin =>
    have hids : ∀ id ∈ Builtin.materials.map Prod.fst, id ≠ MaterialId.outside := by decide +kernel
    rw [Catalog.builtin, get_outside_foldl fun m hm => hids _ (List.mem_map_of_mem hm)]
    exact get_empty _
  | @insert c d id a _ h ih =>
    unfold Catalog.insert at h
    split_ifs at h with hreserved
    cases h
    push Not at hreserved
    rw [get_define, if_neg hreserved.2, ih]

end Catalog

/-- The acting cell is inside the grid, and every cell of the grid holds some material. -/
structure Actor.Among (a : Actor) (s : Scene) : Prop where
  inside : a.index < s.grid.size
  clean : ∀ i < s.grid.size, s.grid.cell i ≠ MaterialId.outside

namespace Actor.Among

variable {a : Actor} {s t : Scene}

theorem alike (h : a.Among s) (hst : s.Alike t) : a.Among t := by
  obtain ⟨hin, hclean⟩ := h
  constructor
  · rw [hst.grid]
    exact hin
  · rw [hst.grid]
    exact hclean

theorem put (h : a.Among s) (i : Nat) {id : MaterialId} (hid : id ≠ MaterialId.outside) :
    a.Among (s.put i id) := by
  refine ⟨h.inside, ?_⟩
  intro j (hj : j < s.grid.size)
  by_cases hij : i = j
  · subst hij
    rw [Scene.put_grid, Grid.cell_set_self hj]
    exact hid
  · rw [Scene.put_grid, Grid.cell_set_of_ne s.grid hij]
    exact h.clean j hj

theorem write (h : a.Among s) (commit : Commit) (i : Nat) {id : MaterialId}
    (hid : id ≠ MaterialId.outside) : a.Among (s.write commit i id) := by
  cases commit with
  | immediate => exact h.put i hid
  | endOfPass => exact ⟨h.inside, h.clean⟩
  | endOfTick => exact ⟨h.inside, h.clean⟩

theorem move (h : a.Among s) (r : CompiledRule) {source target : Nat} (hs : source < s.grid.size)
    (ht : target < s.grid.size) : a.Among (s.move r source target) := by
  have hex : a.Among (s.exchange r.commit source target) := by
    cases r.commit with
    | immediate => exact (h.put target (h.clean source hs)).put source (h.clean target ht)
    | endOfPass => exact ⟨h.inside, h.clean⟩
    | endOfTick => exact ⟨h.inside, h.clean⟩
  have hgrid := Scene.move_grid s r source target
  constructor
  · rw [hgrid]
    exact hex.inside
  · rw [hgrid]
    exact hex.clean

end Actor.Among

namespace CompiledRule

variable {b : RuleBook} {id m : MaterialId} {r : CompiledRule} {o : Outcome}

theorem WellFormed.of_sends (h : r.WellFormed b id) (ho : r.Sends m o) : o.WellFormed b id := by
  by_cases hnoop : o = .noop
  · subst hnoop
    trivial
  · exact h.outcomes o (ho.mem hnoop)

end CompiledRule

namespace Firing

variable {b : RuleBook} {r : CompiledRule} {a : Actor} {k : Candidate} {s : Scene} {hits : Nat}
  {id : MaterialId}

theorem ne_outside (hout : b.isKnown MaterialId.outside = false) (h : b.isKnown id) :
    id ≠ MaterialId.outside := by
  rintro rfl
  rw [hout] at h
  exact Bool.false_ne_true h

theorem transformActor_among (h : a.Among s) {this : Option MaterialId}
    (hthis : ∀ i ∈ this, i ≠ MaterialId.outside) (p : Binary32) :
    a.Among (transformActor r a this p hits s).2.2 := by
  cases this with
  | none => exact h
  | some this =>
    have ht := h.alike (s.alike_chance p)
    simp only [transformActor]
    split_ifs
    · exact ht.write _ _ (hthis this rfl)
    · exact ht

theorem transform_among (h : a.Among s) {this other : Option MaterialId}
    (hthis : ∀ i ∈ this, i ≠ MaterialId.outside) (hother : ∀ i ∈ other, i ≠ MaterialId.outside)
    (p q : Binary32) : a.Among (transform r a k this other p q hits s).2.2 := by
  cases other with
  | none => exact transformActor_among h hthis p
  | some into =>
    have ht := h.alike (s.alike_chance q)
    have hw := ht.write r.commit k.index (hother into rfl)
    simp only [transform]
    split_ifs
    · exact hw
    · exact transformActor_among hw hthis p
    · exact transformActor_among ht hthis p

theorem exchange_among (h : a.Among s) (hk : k.index < s.grid.size) {x : Flow × Scene}
    (hx : ∃ t, s.Alike t ∧ (x = (.next, t) ∨
      x = (.changed, t.move r a.index k.index) ∧ s.isStamped k.index = false)) :
    a.Among x.2 := by
  obtain ⟨t, hst, rfl | ⟨rfl, -⟩⟩ := hx
  · exact h.alike hst
  · have ht := h.alike hst
    refine ht.move r ht.inside ?_
    rw [hst.grid]
    exact hk

theorem directionSwap_among (h : a.Among s) (hk : k.index < s.grid.size) (reach : Int)
    (allow : IdSet) : a.Among (directionSwap r a k reach allow s).2 := by
  simp only [directionSwap]
  split_ifs with hside hpos
  · exact h
  · rw [throwActor]
    cases ht : throwTarget? a k.dx.sign k.dy.sign reach allow s with
    | none => exact h
    | some t => exact h.move r h.inside (throwTarget?_eq_some ht).1
  · rw [pullCandidate]
    cases ht : pullTarget? a k k.dx.sign k.dy.sign (-reach) allow s with
    | none => exact h
    | some t => exact h.move r hk (pullTarget?_eq_some ht).1

theorem apply_among (hout : b.isKnown MaterialId.outside = false) (h : a.Among s)
    (hk : k.index < s.grid.size) {o : Outcome} (ho : o.WellFormed b id) :
    a.Among (apply b r a k o hits s).2.2 := by
  cases o with
  | noop => exact h
  | stop => exact h
  | transform this other p q =>
    obtain ⟨hthis, hother, -⟩ := ho
    exact transform_among h (fun i hi => ne_outside hout (hthis i hi))
      (fun i hi => ne_outside hout (hother i hi)) p q
  | swap p => exact exchange_among h hk (swap_cases r a k p s)
  | densitySwap => exact exchange_among h hk (densitySwap_cases b r a k s)
  | directionSwap reach allow => exact directionSwap_among h hk reach.toInt allow

theorem visit_among (hout : b.isKnown MaterialId.outside = false) (hr : r.WellFormed b id)
    (h : a.Among s) (n hits : Nat) : a.Among (visit b r a n hits s).2.2 := by
  unfold visit
  cases hk : candidate? s.grid a (r.offset n) with
  | none => exact h
  | some k =>
    by_cases hslot : r.slot k.id = noMatch
    · simp only [hslot, if_true]
      exact h
    · simp only [hslot, if_false]
      have hin := (candidate?_eq_some hk).inside
      exact apply_among hout h hin (hr.of_sends ⟨hslot, rfl⟩)

theorem walk_among (hout : b.isKnown MaterialId.outside = false) (hr : r.WellFormed b id) :
    ∀ (ns : List Nat) (hits : Nat) (s : Scene), a.Among s → a.Among (walk b r a ns hits s).2
  | [], _, _, h => h
  | n :: ns, hits, s, h => by
    have hnext := visit_among hout hr h n hits
    rw [walk]
    rcases hvisit : visit b r a n hits s with ⟨flow, hits', t⟩
    rw [hvisit] at hnext
    cases flow with
    | next => exact walk_among hout hr ns hits' t hnext
    | nextRule => exact hnext
    | halt => exact hnext
    | changed => exact hnext

theorem sample_among (hout : b.isKnown MaterialId.outside = false) (hr : r.WellFormed b id) :
    ∀ (m hits : Nat) (s : Scene), a.Among s → a.Among (sample b r a m hits s).2
  | 0, _, _, h => h
  | m + 1, hits, s, h => by
    have ht := h.alike (s.alike_below r.count.toNat)
    have hnext := visit_among hout hr ht (s.below r.count.toNat).1 hits
    simp only [sample]
    rcases hvisit : visit b r a (s.below r.count.toNat).1 hits (s.below r.count.toNat).2
      with ⟨flow, hits', u⟩
    rw [hvisit] at hnext
    cases flow with
    | next => exact sample_among hout hr m hits' u hnext
    | nextRule => exact hnext
    | halt => exact hnext
    | changed => exact hnext

theorem fire_among (hout : b.isKnown MaterialId.outside = false) (hr : r.WellFormed b id)
    (h : a.Among s) : a.Among (fire b r a s).2 := by
  rw [fire]
  cases r.starts with
  | none => exact sample_among hout hr _ _ s h
  | some starts =>
    exact walk_among hout hr _ _ _ (h.alike (s.alike_below (CompiledRule.groupCount starts)))

end Firing

namespace Authored

variable {c : Catalog} {b : RuleBook} {actor : Archetype} {r : Rule} {a : Actor} {k : Candidate}
  {s : Scene} {hits : Nat}

theorem odds_eq (actor : Archetype) (p : Chance) : odds actor p = (p.value actor).getD .zero := by
  cases p <;> rfl

theorem afterHits_tables (c : Catalog) (actor : Archetype) (r : Rule) (hits : Nat) :
    Firing.afterHits (r.tables c actor) hits = enough r hits := by
  unfold Firing.afterHits enough
  cases hl : r.limit with
  | none => simp [Rule.tables, hl]
  | some limit =>
    have hpos : 0 < limit.toNat ↔ limit ≠ 0 := by
      rw [Nat.pos_iff_ne_zero, ne_eq, ne_eq, ← UInt32.toNat_inj]
      rfl
    simp [Rule.tables, hl, hpos]

theorem transformActor_tables (c : Catalog) (actor : Archetype) (this : Option MaterialId)
    (p : Binary32) :
    Firing.transformActor (r.tables c actor) a this p hits s =
      match this with
      | none => (enough r hits, hits, s)
      | some this =>
        let (passed, s) := s.chance p
        if passed ∧ this ≠ a.id then (.changed, hits, s.write r.commit a.index this)
        else (enough r hits, hits, s) := by
  cases this with
  | none => simp only [Firing.transformActor, afterHits_tables]
  | some this =>
    simp only [Firing.transformActor, afterHits_tables, Bool.and_eq_true, decide_eq_true_eq]
    rfl

theorem transform_tables (c : Catalog) (actor : Archetype) (this other : Option MaterialId)
    (p q : Binary32) :
    Firing.transform (r.tables c actor) a k this other p q hits s
      = transform r a k this other p q hits s := by
  cases other with
  | none => exact transformActor_tables c actor this p
  | some into =>
    simp only [Firing.transform, transform, transformActor_tables, Bool.and_eq_true,
      decide_eq_true_eq]
    rfl

theorem move_tables (c : Catalog) (actor : Archetype) (source target : Nat) :
    s.move (r.tables c actor) source target = relocate r source target s := by
  obtain ⟨chance, sampler, samples, matchers, outcomes, limit, commit, pass, stamp⟩ := r
  cases commit <;> cases stamp <;> rfl

theorem contains_landingSet {destination : Option Predicate} {id : MaterialId}
    (hid : id ≠ MaterialId.outside) :
    (landingSet c actor destination).contains id = welcomes c actor destination id := by
  rw [landingSet, IdSet.contains_ofPred, welcomes, Bool.and_assoc]
  simp [hid]

theorem compile_movesCandidate (c : Catalog) (actor : Archetype) (e : Effect) :
    (e.compile c actor).movesCandidate = relocates e := by
  cases e with
  | directionSwap reach destination =>
    by_cases hzero : reach = 0
    · subst hzero
      rfl
    · simp only [Effect.compile, if_neg hzero]
      rfl
  | _ => rfl

theorem landing?_of_pos (h : a.Among s) {reach : Int8} {destination : Option Predicate}
    (hside : ¬(k.dx.sign = 0 ∧ k.dy.sign = 0)) (hpos : 0 < reach.toInt) :
    landing? c actor a k reach destination s =
      (Firing.throwTarget? a k.dx.sign k.dy.sign reach.toInt (landingSet c actor destination) s).map
        (a.index, ·) := by
  have hzero : reach ≠ 0 := by
    rintro rfl
    exact absurd hpos (by decide)
  simp only [landing?, Firing.throwTarget?, hpos, if_true, hzero, hside, false_or]
  by_cases hin : s.grid.inBounds (a.x + k.dx.sign * reach.toInt) (a.y + k.dy.sign * reach.toInt)
  · have ht := h.clean _ (Grid.index_lt_of_inBounds hin)
    simp only [hin, contains_landingSet ht]
    cases welcomes c actor destination _ <;> cases s.isStamped _ <;> rfl
  · simp only [hin]
    rfl

theorem landing?_of_neg (h : a.Among s) {reach : Int8} {destination : Option Predicate}
    (hzero : reach ≠ 0) (hside : ¬(k.dx.sign = 0 ∧ k.dy.sign = 0)) (hneg : ¬0 < reach.toInt) :
    landing? c actor a k reach destination s =
      (Firing.pullTarget? a k k.dx.sign k.dy.sign (-reach.toInt) (landingSet c actor destination)
        s).map (k.index, ·) := by
  simp only [landing?, Firing.pullTarget?, hneg, if_false, hzero, hside, false_or, Int.mul_neg,
    Int.sub_neg]
  by_cases hin : s.grid.inBounds (k.x + k.dx.sign * reach.toInt) (k.y + k.dy.sign * reach.toInt)
  · have ht := h.clean _ (Grid.index_lt_of_inBounds hin)
    simp only [hin, contains_landingSet ht]
    generalize s.grid.index _ _ = t
    by_cases hta : t = a.index
    · simp [hta]
    by_cases htk : t = k.index
    · simp [htk]
    cases welcomes c actor destination _ <;> cases s.isStamped t <;> cases s.isStamped k.index <;>
      simp [hta, htk]
  · simp only [hin]
    rfl

theorem directionSwap_tables (h : a.Among s) (reach : Int8) (destination : Option Predicate) :
    Firing.apply b (r.tables c actor) a k ((Effect.directionSwap reach destination).compile c actor)
      hits s = act c actor r a k (.directionSwap reach destination) hits s := by
  by_cases hzero : reach = 0
  · subst hzero
    simp [Effect.compile, Firing.apply, act, landing?]
  simp only [Effect.compile, if_neg hzero, Firing.apply, Firing.directionSwap, act]
  by_cases hside : k.dx.sign = 0 ∧ k.dy.sign = 0
  · simp [hside, landing?]
  by_cases hpos : 0 < reach.toInt
  · rw [landing?_of_pos h hside hpos]
    simp only [hside, hpos, if_true, if_false, Firing.throwActor, move_tables]
    cases Firing.throwTarget? a k.dx.sign k.dy.sign reach.toInt (landingSet c actor destination) s <;>
      rfl
  · rw [landing?_of_neg h hzero hside hpos]
    simp only [hside, hpos, if_false, Firing.pullCandidate, move_tables]
    cases Firing.pullTarget? a k k.dx.sign k.dy.sign (-reach.toInt) (landingSet c actor destination)
      s <;> rfl

/-- An outcome does what its effect does. -/
theorem apply_compile (hb : b.Reads c) (h : a.Among s) (e : Effect) :
    Firing.apply b (r.tables c actor) a k (e.compile c actor) hits s = act c actor r a k e hits s := by
  cases e with
  | noop => rfl
  | stop => rfl
  | transform this other p q => exact transform_tables c actor this other p q
  | swap p =>
    simp only [Effect.compile, Firing.apply, Firing.swap, act, move_tables]
    split_ifs <;> rfl
  | densitySwap =>
    have hsink : Firing.sinkChance b a k = ((densityOf c a.id).sub (densityOf c k.id)).double := by
      rw [Firing.sinkChance, hb.density, hb.density]
      rfl
    simp only [Effect.compile, Firing.apply, Firing.densitySwap, act, move_tables, hsink]
    split_ifs <;> simp_all
  | directionSwap reach destination => exact directionSwap_tables h reach destination

/-- Finding the first filtered value, and filtering before looking at values, are the same. -/
theorem findSome?_filter {α β : Type} (f : α → Option β) (p : α → β → Bool) (q : α → Bool)
    (xs : List α) (h : ∀ x ∈ xs, ∃ y, f x = some y ∧ p x y = q x) :
    (xs.findSome? fun x => (f x).filter (p x)) = (xs.find? q).bind f := by
  induction xs with
  | nil => rfl
  | cons x xs ih =>
    obtain ⟨hx, hxs⟩ := List.forall_mem_cons.mp h
    obtain ⟨y, hy, hq⟩ := hx
    rw [List.findSome?_cons, List.find?_cons, hy, Option.filter_some, hq]
    cases hqx : q x with
    | true => simp [hy]
    | false => simpa using ih hxs

theorem effectOn?_eq (hv : r.Valid c actor) (id : MaterialId) :
    effectOn? c actor r id =
      (r.matchers.find? (r.takes c actor id)).bind fun m => r.outcomes[m.outcome.toNat]? := by
  apply findSome?_filter
  intro m hm
  have hlt := (hv.matchers m hm).1
  refine ⟨r.outcomes[m.outcome.toNat], List.getElem?_eq_getElem hlt, ?_⟩
  rw [Rule.takes, Rule.getD_compiledOutcomes hlt, compile_movesCandidate]

theorem visit_tables (hb : b.Reads c) (hv : r.Valid c actor) (h : a.Among s) (n hits : Nat) :
    Firing.visit b (r.tables c actor) a n hits s
      = visit c actor r a (r.sampler.expand.offsets.getD n (0, 0)) hits s := by
  simp only [Firing.visit, visit, hv.tables_offset]
  cases hk : Firing.candidate? s.grid a (r.sampler.expand.offsets.getD n (0, 0)) with
  | none => rfl
  | some k =>
    have hseen := Firing.candidate?_eq_some hk
    have hid : k.id ≠ MaterialId.outside := by
      rw [← hseen.material]
      exact h.clean _ hseen.inside
    simp only [effectOn?_eq hv]
    cases hm : r.matchers.find? (r.takes c actor k.id) with
    | none =>
      simp only [Rule.tables_slot_of_find?_eq_none hm, if_true]
      rfl
    | some m =>
      have hlt := (hv.matchers m (List.mem_of_find?_eq_some hm)).1
      obtain ⟨hnat, hslot⟩ := hv.tables_slot_of_find?_eq_some hid hm
      have hout : (r.tables c actor).outcome ((r.tables c actor).slot k.id)
          = (r.outcomes[m.outcome.toNat]).compile c actor := by
        rw [CompiledRule.outcome, hnat, Rule.tables_outcomes, Rule.getD_compiledOutcomes hlt]
      simp only [hslot, if_false, hout, Option.bind_some, List.getElem?_eq_getElem hlt]
      exact apply_compile hb h _

section

variable {id : MaterialId} (hb : b.Reads c) (hout : b.isKnown MaterialId.outside = false)
  (ha : c.get id = some actor)

include hb hout ha

theorem walk_tables (hv : r.Valid c actor) :
    ∀ (ns : List Nat) (hits : Nat) (s : Scene), a.Among s →
      Firing.walk b (r.tables c actor) a ns hits s
        = walk c actor r a (ns.map fun n => r.sampler.expand.offsets.getD n (0, 0)) hits s
  | [], _, _, _ => rfl
  | n :: ns, hits, s, h => by
    have hnext := Firing.visit_among hout (hv.tables_wellFormed hb ha) h n hits
    rw [visit_tables hb hv h n hits] at hnext
    rw [Firing.walk, List.map_cons, walk, visit_tables hb hv h n hits]
    rcases hvisit : visit c actor r a (r.sampler.expand.offsets.getD n (0, 0)) hits s
      with ⟨flow, hits', t⟩
    rw [hvisit] at hnext
    cases flow with
    | next => exact walk_tables hv ns hits' t hnext
    | nextRule => rfl
    | halt => rfl
    | changed => rfl

theorem sample_tables (hv : r.Valid c actor) :
    ∀ (m hits : Nat) (s : Scene), a.Among s →
      Firing.sample b (r.tables c actor) a m hits s
        = sample c actor r a r.sampler.expand.offsets m hits s
  | 0, _, _, _ => rfl
  | m + 1, hits, s, h => by
    have ht := h.alike (s.alike_below r.sampler.expand.offsets.length)
    simp only [Firing.sample, sample, hv.tables_count]
    generalize s.below r.sampler.expand.offsets.length = drawn at ht ⊢
    obtain ⟨n, t⟩ := drawn
    have hnext := Firing.visit_among hout (hv.tables_wellFormed hb ha) ht n hits
    rw [visit_tables hb hv ht n hits] at hnext ⊢
    rcases hvisit : visit c actor r a (r.sampler.expand.offsets.getD n (0, 0)) hits t
      with ⟨flow, hits', u⟩
    rw [hvisit] at hnext
    cases flow with
    | next => exact sample_tables hv m hits' u hnext
    | nextRule => rfl
    | halt => rfl
    | changed => rfl

end

/-- The numbers of a block of a list find the block. -/
theorem map_getD_range' {α : Type} (pre block post : List α) (d : α) :
    (List.range' pre.length block.length).map (fun n => (pre ++ block ++ post).getD n d)
      = block := by
  apply List.ext_getElem
  · simp
  · intro i hi hi'
    simp [List.getElem?_append, hi']

theorem map_getD_group (groups : List (List Offset)) {g : Nat} (hg : g < groups.length)
    (d : Int × Int) :
    (List.range' (groups.take g).flatten.length
        ((groups.take (g + 1)).flatten.length - (groups.take g).flatten.length)).map
      (fun n => (groups.flatten.map Sampler.widen).getD n d)
      = (groups[g]).map Sampler.widen := by
  have hlen : (groups.take (g + 1)).flatten.length - (groups.take g).flatten.length
      = groups[g].length := by
    rw [List.take_succ_eq_append_getElem hg, List.flatten_append, List.length_append,
      List.flatten_singleton, Nat.add_sub_cancel_left]
  have hsplit : groups.flatten
      = (groups.take g).flatten ++ groups[g] ++ (groups.drop (g + 1)).flatten := by
    conv_lhs => rw [← List.take_append_drop (g + 1) groups, List.take_succ_eq_append_getElem hg]
    rw [List.flatten_append, List.flatten_append, List.flatten_singleton]
  have hblock := map_getD_range' ((groups.take g).flatten.map Sampler.widen)
    (groups[g].map Sampler.widen) ((groups.drop (g + 1)).flatten.map Sampler.widen) d
  rw [hlen, hsplit, List.map_append, List.map_append]
  simpa only [List.length_map] using hblock

section

variable {id : MaterialId} (hb : b.Reads c) (hout : b.isKnown MaterialId.outside = false)
  (ha : c.get id = some actor)

include hb hout ha

theorem fire_tables (hv : r.Valid c actor) (h : a.Among s) :
    Firing.fire b (r.tables c actor) a s = fire c actor r a s := by
  by_cases hordered : ∃ groups, r.sampler = .ordered groups
  · obtain ⟨groups, hs⟩ := hordered
    obtain ⟨starts, hstarts, hsize, hget⟩ := hv.tables_starts hs
    have hcount : CompiledRule.groupCount starts = groups.length := by
      rw [CompiledRule.groupCount, hsize, Nat.add_sub_cancel]
    have hpos : 0 < groups.length := by
      have htwo := (hv.tables_grouped hstarts).two
      omega
    have ht := h.alike (s.alike_below groups.length)
    have hg := s.below_lt hpos
    simp only [Firing.fire, hstarts, hcount, fire, hs]
    generalize s.below groups.length = drawn at ht hg ⊢
    obtain ⟨g, t⟩ := drawn
    simp only [CompiledRule.group, hget g (Nat.le_of_lt hg), hget (g + 1) hg]
    rw [walk_tables hb hout ha hv _ 0 t ht, hs, Sampler.offsets_ordered,
      map_getD_group groups hg, List.getD_eq_getElem?_getD, List.getElem?_eq_getElem hg,
      Option.getD_some]
  · have hnone : (r.tables c actor).starts = none := by
      cases hs : r.sampler with
      | ordered groups => exact absurd ⟨groups, hs⟩ hordered
      | _ => simp only [Rule.tables, hs]; rfl
    have hsample := sample_tables hb hout ha hv r.samples.toNat 0 s h
    simp only [Firing.fire, hnone, fire]
    cases hs : r.sampler with
    | ordered groups => exact absurd ⟨groups, hs⟩ hordered
    | _ => rw [hs] at hsample; exact hsample

theorem tryRules_tables :
    ∀ (rs : List Rule) (s : Scene), (∀ r ∈ rs, r.Valid c actor) → a.Among s →
      Firing.tryRules b a (rs.map (·.tables c actor)) s = tryRules c actor a rs s
  | [], _, _, _ => rfl
  | r :: rs, s, hrs, h => by
    obtain ⟨hv, hrs⟩ := List.forall_mem_cons.mp hrs
    have hodds : (r.tables c actor).chance = odds actor r.chance := (odds_eq actor r.chance).symm
    have ht := h.alike (s.alike_countAttempted.trans (Scene.alike_chance _ (odds actor r.chance)))
    simp only [List.map_cons, Firing.tryRules, tryRules, hodds]
    generalize s.countAttempted.chance (odds actor r.chance) = drawn at ht ⊢
    obtain ⟨passed, t⟩ := drawn
    cases passed with
    | false => exact tryRules_tables rs t hrs ht
    | true =>
      have hu := ht.alike t.alike_countFired
      have hnext := Firing.fire_among hout (hv.tables_wellFormed hb ha) hu
      rw [fire_tables hb hout ha hv hu] at hnext
      simp only [if_true, fire_tables hb hout ha hv hu]
      rcases hfire : fire c actor r a t.countFired with ⟨flow, u⟩
      rw [hfire] at hnext
      cases flow with
      | next => exact tryRules_tables rs u hrs hnext
      | nextRule => exact tryRules_tables rs u hrs hnext
      | halt => rfl
      | changed => rfl

end

end Authored

/-- The turn of a cell by the compiled tables is its turn by the authored rules, whatever the scene
holds otherwise: the same answer, and the same cells, stamps, marks, put-off writes, moves, counters
and draws. -/
theorem runCell_eq_authored {c : Catalog} {b : RuleBook} (hc : c.Reached)
    (hb : RuleBook.compile c = .ok b) (pass : Pass) {x y : Nat} {s : Scene}
    (hx : x < s.grid.width) (hy : y < s.grid.height)
    (hclean : ∀ i < s.grid.size, s.grid.cell i ≠ MaterialId.outside) :
    runCell b pass x y s = Authored.runCell c pass x y s := by
  have hreads := RuleBook.reads_of_compile hb
  have hout : b.isKnown MaterialId.outside = false := by
    rw [hreads.known, Catalog.isKnown, hc.get_outside]
    rfl
  simp only [runCell, Authored.runCell, hreads.rules]
  cases ha : c.get (s.grid.cell (s.grid.index x y)) with
  | none => rfl
  | some actor =>
    have hvalid : ∀ r ∈ actor.rules.filter (·.pass.admits pass), r.Valid c actor :=
      fun r hr => hreads.valid _ _ ha r (List.mem_of_mem_filter hr)
    have hamong : Actor.Among ⟨x, y, s.grid.index x y, s.grid.cell (s.grid.index x y)⟩
        s.countVisited := ⟨Grid.index_lt hx hy, hclean⟩
    have htry := Authored.tryRules_tables hreads hout ha _ _ hvalid hamong
    simp only
    cases hrs : actor.rules.filter (·.pass.admits pass) with
    | nil => rfl
    | cons r rs =>
      rw [hrs] at htry
      exact htry

/-- A grain of sand above an empty cell falls, by the tables as by the rules. -/
theorem runCell_eq_authored_sand :
    ∃ b, RuleBook.compile Catalog.builtin = .ok b ∧
      runCell b .falling 0 0 ((Scene.fresh 1 2 true 7).put 0 Catalog.Builtin.sand)
        = Authored.runCell Catalog.builtin .falling 0 0
          ((Scene.fresh 1 2 true 7).put 0 Catalog.Builtin.sand) ∧
      (runCell b .falling 0 0 ((Scene.fresh 1 2 true 7).put 0 Catalog.Builtin.sand)).1 = true := by
  obtain ⟨b, hb⟩ := RuleBook.compile_builtin
  have heq := runCell_eq_authored .builtin hb .falling
    (show 0 < ((Scene.fresh 1 2 true 7).put 0 Catalog.Builtin.sand).grid.width by decide)
    (show 0 < ((Scene.fresh 1 2 true 7).put 0 Catalog.Builtin.sand).grid.height by decide)
    (by decide +kernel)
  refine ⟨b, hb, heq, ?_⟩
  rw [heq]
  decide +kernel

end Sandfall
