import Sandfall.IdSet
import Mathlib.Data.Set.Card
import Mathlib.Tactic

/-! Sets of ids, bit by bit. An id is known by its word and its place in the word, so different ids
have different bits, and as there are 256 of either, every bit is that of an id. -/

namespace Sandfall

namespace MaterialId

theorem mem_all (id : MaterialId) : id ∈ all :=
  List.mem_map.mpr ⟨id.toNat, List.mem_range.mpr (UInt8.toNat_lt id), UInt8.ofNat_toNat⟩

def place (id : MaterialId) : Nat := id.toNat % 64

theorem place_lt (id : MaterialId) : id.place < 64 := Nat.mod_lt _ (by decide)

theorem slot_val (id : MaterialId) : id.slot.val = id.toNat / 64 :=
  Nat.shiftRight_eq_div_pow _ 6

theorem eq_iff (id j : MaterialId) : id = j ↔ id.slot = j.slot ∧ id.place = j.place := by
  rw [← UInt8.toNat_inj, Fin.ext_iff, slot_val, slot_val, place, place]
  omega

theorem toBitVec_bit (id : MaterialId) : id.bit.toBitVec = BitVec.twoPow 64 id.place := by
  have hmask : (id.toUInt64 &&& 63).toNat = id.place := Nat.and_two_pow_sub_one_eq_mod _ 6
  have hshift : ((id.toUInt64 &&& 63).toBitVec % 64).toNat = id.place := by
    rw [BitVec.toNat_umod, UInt64.toNat_toBitVec, hmask]
    exact Nat.mod_eq_of_lt id.place_lt
  rw [bit, UInt64.toBitVec_shiftLeft, BitVec.shiftLeft_eq', hshift, BitVec.twoPow_eq]
  rfl

theorem getLsbD_bit (id j : MaterialId) :
    id.bit.toBitVec.getLsbD j.place = decide (id.place = j.place) := by
  rw [toBitVec_bit, BitVec.getLsbD_twoPow, decide_eq_true id.place_lt, Bool.true_and]

end MaterialId

namespace IdSet

theorem contains_eq (s : IdSet) (id : MaterialId) :
    s.contains id = (s.words.get id.slot).toBitVec.getLsbD id.place := by
  have hne : BitVec.twoPow 64 id.place ≠ 0#64 := by
    intro hzero
    have hbit := congrArg (fun w => w.getLsbD id.place) hzero
    simp [id.place_lt] at hbit
  rw [Bool.eq_iff_iff, contains, bne_iff_ne, Ne, ← UInt64.toBitVec_inj, UInt64.toBitVec_and,
    MaterialId.toBitVec_bit, BitVec.and_twoPow]
  split_ifs with hbit
  · exact iff_of_true hne hbit
  · exact iff_of_false (fun h => h rfl) hbit

theorem contains_words_set (s : IdSet) (id j : MaterialId) (w : UInt64) :
    contains ⟨s.words.set id.slot w id.slot.isLt⟩ j
      = if id.slot = j.slot then w.toBitVec.getLsbD j.place else s.contains j := by
  have hget : (s.words.set id.slot w id.slot.isLt).get j.slot
      = if id.slot.val = j.slot.val then w else s.words.get j.slot :=
    Vector.getElem_set id.slot.isLt j.slot.isLt
  rw [contains_eq, contains_eq, hget]
  simp only [← Fin.ext_iff]
  split_ifs <;> rfl

@[simp] theorem contains_none (id : MaterialId) : none.contains id = false := by
  have hword : (Vector.replicate 4 (0 : UInt64)).get id.slot = 0 :=
    Vector.getElem_replicate id.slot.isLt
  simp [contains_eq, none, hword]

@[simp] theorem contains_all (id : MaterialId) : all.contains id = true := by
  have hword : (Vector.replicate 4 (~~~0 : UInt64)).get id.slot = ~~~0 :=
    Vector.getElem_replicate id.slot.isLt
  have hones : (~~~0 : UInt64).toBitVec = BitVec.allOnes 64 := rfl
  rw [contains_eq, all, hword, hones, BitVec.getLsbD_allOnes]
  exact decide_eq_true id.place_lt

@[simp] theorem contains_insert (s : IdSet) (id j : MaterialId) :
    (s.insert id).contains j = (s.contains j || decide (id = j)) := by
  rw [Bool.eq_iff_iff, Bool.or_eq_true, decide_eq_true_iff, MaterialId.eq_iff, insert,
    contains_words_set]
  split_ifs with hslot
  · simp only [UInt64.toBitVec_or, BitVec.getLsbD_or, MaterialId.getLsbD_bit, contains_eq, hslot,
      Bool.or_eq_true, decide_eq_true_iff, true_and]
  · simp [hslot]

@[simp] theorem contains_remove (s : IdSet) (id j : MaterialId) :
    (s.remove id).contains j = (s.contains j && !decide (id = j)) := by
  rw [Bool.eq_iff_iff, Bool.and_eq_true, Bool.not_eq_true', decide_eq_false_iff_not,
    MaterialId.eq_iff, remove, contains_words_set]
  split_ifs with hslot
  · simp only [UInt64.toBitVec_and, UInt64.toBitVec_not, BitVec.getLsbD_and, BitVec.getLsbD_not,
      MaterialId.getLsbD_bit, contains_eq, hslot, j.place_lt, decide_true, Bool.true_and,
      Bool.and_eq_true, Bool.not_eq_true', decide_eq_false_iff_not, true_and]
  · simp [hslot]

theorem contains_foldl (p : MaterialId → Bool) (ids : List MaterialId) (s : IdSet)
    (j : MaterialId) :
    (ids.foldl (fun s id => if p id then s.insert id else s) s).contains j
      = (s.contains j || (decide (j ∈ ids) && p j)) := by
  induction ids generalizing s with
  | nil => simp
  | cons id ids ih =>
    rw [List.foldl_cons, ih]
    by_cases hj : id = j
    · subst hj
      cases p id <;> simp
    · cases p id <;> simp [hj, Ne.symm hj]

@[simp] theorem contains_ofPred (p : MaterialId → Bool) (id : MaterialId) :
    (ofPred p).contains id = p id := by
  rw [ofPred, contains_foldl]
  simp [MaterialId.mem_all]

theorem countP_getLsbD {w : Nat} (x : BitVec w) :
    x.cpop.toNat = (List.range w).countP x.getLsbD := by
  have hprefix : ∀ k, x.cpopNatRec k 0 = (List.range k).countP x.getLsbD := by
    intro k
    induction k with
    | zero => rfl
    | succ k ih =>
      rw [BitVec.cpopNatRec_succ, BitVec.cpopNatRec_add, ih, List.range_succ, List.countP_append,
        List.countP_singleton]
      cases x.getLsbD k <;> rfl
  rw [BitVec.toNat_cpop, hprefix]

theorem all_eq_flatMap : MaterialId.all =
    (List.finRange 4).flatMap fun k : Fin 4 =>
      (List.range 64).map fun i => UInt8.ofNat (64 * k + i) := by
  decide +kernel

theorem slot_ofNat (k : Fin 4) {i : Nat} (hi : i < 64) :
    MaterialId.slot (UInt8.ofNat (64 * k + i)) = k ∧
      MaterialId.place (UInt8.ofNat (64 * k + i)) = i := by
  have hid : (UInt8.ofNat (64 * k + i)).toNat = 64 * k + i :=
    UInt8.toNat_ofNat_of_lt' (by simp only [UInt8.size]; omega)
  rw [Fin.ext_iff, MaterialId.slot_val, MaterialId.place, hid]
  omega

theorem count_eq (s : IdSet) : s.count = s.toList.length := by
  have hword : ∀ k : Fin 4, (List.range 64).countP (s.contains ∘ fun i => UInt8.ofNat (64 * k + i))
      = (s.words.get k).toBitVec.cpop.toNat := by
    intro k
    rw [countP_getLsbD]
    refine List.countP_congr fun i hi => ?_
    obtain ⟨hslot, hplace⟩ := slot_ofNat k (List.mem_range.mp hi)
    simp only [Function.comp_apply, contains_eq, hslot, hplace]
  have hwords : s.words.toList = (List.finRange 4).map s.words.get := by
    rw [← List.ofFn_eq_map, ← Vector.toList_ofFn]
    exact congrArg Vector.toList Vector.ofFn_getElem.symm
  rw [toList, ← List.countP_eq_length_filter, all_eq_flatMap, List.countP_flatMap,
    List.sum_eq_foldl_nat, count, ← Vector.foldl_toList, hwords, List.foldl_map, List.foldl_map]
  congr 1
  funext n k
  rw [Function.comp_apply, List.countP_map, hword]

/-- What a set of ids is first made as. -/
inductive Origin where
  | none
  | all
  | ofPred (p : MaterialId → Bool)

def Origin.set : Origin → IdSet
  | .none => IdSet.none
  | .all => IdSet.all
  | .ofPred p => IdSet.ofPred p

def Origin.Holds (id : MaterialId) : Origin → Prop
  | .none => False
  | .all => True
  | .ofPred p => p id = true

inductive Edit where
  | insert (id : MaterialId)
  | remove (id : MaterialId)

def Edit.id : Edit → MaterialId
  | .insert id => id
  | .remove id => id

def Edit.IsInsert : Edit → Prop
  | .insert _ => True
  | .remove _ => False

def edit (s : IdSet) : Edit → IdSet
  | .insert id => s.insert id
  | .remove id => s.remove id

def editAll (s : IdSet) (es : List Edit) : IdSet := es.foldl edit s

/-- The last edit of the id was an insertion, or there was none and the id was in the set to begin
with. -/
def Holds (o : Origin) (es : List Edit) (id : MaterialId) : Prop :=
  match (es.filter fun e => e.id = id).getLast? with
  | .some e => e.IsInsert
  | .none => o.Holds id

theorem Origin.contains_set (o : Origin) (id : MaterialId) :
    o.set.contains id = true ↔ o.Holds id := by
  cases o <;> simp [Origin.set, Origin.Holds]

theorem contains_edit (s : IdSet) (e : Edit) (id : MaterialId) :
    (s.edit e).contains id = true ↔ if e.id = id then e.IsInsert else s.contains id = true := by
  cases e with
  | insert j => by_cases h : j = id <;> simp [edit, Edit.id, Edit.IsInsert, h]
  | remove j => by_cases h : j = id <;> simp [edit, Edit.id, Edit.IsInsert, h]

theorem holds_concat (o : Origin) (es : List Edit) (e : Edit) (id : MaterialId) :
    Holds o (es ++ [e]) id ↔ if e.id = id then e.IsInsert else Holds o es id := by
  by_cases h : e.id = id <;> simp [Holds, List.filter_append, h]

theorem contains_editAll (o : Origin) (es : List Edit) (id : MaterialId) :
    (o.set.editAll es).contains id = true ↔ Holds o es id := by
  induction es using List.reverseRecOn with
  | nil => exact o.contains_set id
  | append_singleton es e ih =>
    rw [editAll, List.foldl_concat, ← editAll, contains_edit, holds_concat, ih]

theorem count_eq_ncard (s : IdSet) : s.count = {id | s.contains id = true}.ncard := by
  have hnodup : s.toList.Nodup := by
    refine List.Nodup.filter _ (List.Nodup.map_on ?_ List.nodup_range)
    intro i hi j hj h
    have hnat := congrArg UInt8.toNat h
    rwa [UInt8.toNat_ofNat_of_lt' (List.mem_range.mp hi),
      UInt8.toNat_ofNat_of_lt' (List.mem_range.mp hj)] at hnat
  have hmem : {id | s.contains id = true} = (s.toList.toFinset : Set MaterialId) := by
    ext id
    simp [toList, MaterialId.mem_all]
  rw [count_eq, hmem, Set.ncard_coe_finset, List.toFinset_card_of_nodup hnodup]

/-- However a set of ids is made and edited, it contains an id just if the last edit of the id was
an insertion, or there was none and the id was in the set to begin with; and what it counts is the
ids it contains. -/
theorem edits_make_a_set (o : Origin) (es : List Edit) :
    (∀ id, (o.set.editAll es).contains id = true ↔ Holds o es id) ∧
    (o.set.editAll es).count = {id | (o.set.editAll es).contains id = true}.ncard :=
  ⟨contains_editAll o es, count_eq_ncard _⟩

end IdSet

end Sandfall
