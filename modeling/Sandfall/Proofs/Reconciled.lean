import Sandfall.Proofs.Balance
import Sandfall.Proofs.Drowsing
import Sandfall.Proofs.Redraw

/-! What is reckoned in a tick, said at once for all chunks. Which chunks have changed is settled
before the first turn, and a turn stores the sum and sets the mark of its own chunk only. What it
does to another chunk is to wake it, so whether a chunk sleeps in the end does not depend on the
order of the turns, though its count of quiet ticks may. -/

namespace Sandfall.Chunks

def Changed (g : Grid) (c : Chunks) (i : Nat) : Prop :=
  c.isActive i = true ∧ c.checksums[i]? ≠ some (c.checksum g i)

/-- What activity comes to when it has been reckoned. -/
structure Reconciled (g : Grid) (keepsAwake : MaterialId → Bool) (c d : Chunks) : Prop where
  asleep : ∀ i < c.count, d.isActive i = false ↔
    (c.isActive i = false ∧ ∀ j, c.Adjacent i j → ¬c.Changed g j) ∨
      (c.isActive i = true ∧ ¬c.Changed g i ∧ (∀ j, c.Adjacent i j → ¬c.Changed g j) ∧
        c.sleepingEnabled = true ∧ 59 ≤ c.sleep[i]?.getD 0 ∧
        ∀ id ∈ c.contents g i, keepsAwake id = false)
  sums : ∀ i < c.count, d.checksums[i]?
    = if c.isActive i then some (c.checksum g i) else c.checksums[i]?
  marks : ∀ i, d.isDirty i = true ↔ c.isDirty i = true ∨ c.Changed g i
  counts : ∃ woken slept, Balanced woken slept c d
  balance : d.woke.toNat < countLimit → d.slept.toNat < countLimit →
    (d.activeCount : Int) - c.activeCount
      = (d.woke.toNat - c.woke.toNat) - (d.slept.toNat - c.slept.toNat)

variable {c d : Chunks} {g : Grid} {keepsAwake : MaterialId → Bool} {i j : Nat} {order : List Nat}

theorem checksums_eq_some_iff (hi : i < c.count) {sum : UInt32} :
    c.checksums[i]? = some sum ↔ sum = c.checksums[i]?.getD 0 := by
  have hin : i < total c.width c.height := hi
  rw [Vector.getElem?_eq_getElem hin, Option.getD_some, Option.some.injEq, eq_comm]

theorem changed_iff : c.Changed g i ↔
    c.isActive i = true ∧ c.checksum g i ≠ c.checksums[i]?.getD 0 := by
  unfold Changed
  refine and_congr_right fun hactive => not_congr ?_
  exact checksums_eq_some_iff (lt_count_of_isActive hactive)

theorem isStirred_eq_false_iff : c.isStirred g i = false ↔
    ∀ j, c.Adjacent i j → ¬c.Changed g j := by
  rw [isStirred, List.any_eq_false]
  constructor
  · intro h j hadjacent hchanged
    obtain ⟨hactive, hsum⟩ := changed_iff.mp hchanged
    have hj := lt_count_of_isActive hactive
    refine h j (mem_turns.mpr ⟨hj, hactive⟩) (decide_eq_true ⟨hadjacent.ne.symm, hsum, ?_⟩)
    exact (mem_neighbours hj).mpr hadjacent.symm
  · intro h j hj hstirs
    obtain ⟨hj, hactive⟩ := mem_turns.mp hj
    obtain ⟨-, hsum, hnear⟩ := of_decide_eq_true hstirs
    exact h j ((mem_neighbours hj).mp hnear).symm (changed_iff.mpr ⟨hactive, hsum⟩)

/-- A count of quiet ticks is enough one tick before the chunk sleeps, also when it is full. -/
theorem sleepThreshold_le_tickUp {ticks : UInt8} : sleepThreshold ≤ tickUp ticks ↔ 59 ≤ ticks := by
  have htick := toNat_tickUp ticks
  have hthreshold : sleepThreshold.toNat = 60 := rfl
  have hbefore : (59 : UInt8).toNat = 59 := rfl
  rw [UInt8.le_iff_toNat_le, UInt8.le_iff_toNat_le]
  omega

theorem not_changed_iff (hactive : c.isActive i = true) : ¬c.Changed g i ↔
    c.checksum g i = c.checksums[i]?.getD 0 := by
  rw [changed_iff, and_iff_right hactive, not_not]

/-! The turns in any order. -/

section

variable (horder : order.Perm c.turns)
include horder

/-- An active chunk falls asleep if nothing changes in it or next to it, and it may. -/
theorem asleep_iff_of_active (hi : i < c.count) (hactive : c.isActive i = true) :
    (reckon g keepsAwake c order c).isActive i = false ↔
      ¬c.Changed g i ∧ (∀ j, c.Adjacent i j → ¬c.Changed g j) ∧ c.sleepingEnabled = true ∧
        59 ≤ c.sleep[i]?.getD 0 ∧ ∀ id ∈ c.contents g i, keepsAwake id = false := by
  obtain ⟨before, after, d, hstirred, hbefore, hafter⟩ :=
    exists_turn_of_perm horder hi hactive g keepsAwake
  have hin : i < d.count := hbefore.same.count ▸ hi
  have hstill : d.isActive i = true := by rw [hbefore.active, hactive, Bool.or_true]
  rw [hafter.active, Bool.or_eq_false_iff, asleep_reconcile_iff hin hstill, hbefore.sum,
    hbefore.enabled, hbefore.sleep, hbefore.same.cellsOf, sleepThreshold_le_tickUp,
    not_changed_iff hactive, ← isStirred_eq_false_iff, ← hstirred, Bool.or_eq_false_iff, contents,
    List.forall_mem_map]
  rcases before with _ | _
  · simp only [Bool.false_eq_true, if_false, true_and]
    exact and_left_comm
  · -- woken before its turn, it has just begun to count
    have hshort : ¬(59 : UInt8) ≤ 0 := by decide
    simp only [if_true, hshort, Bool.true_eq_false, false_and, and_false]

theorem asleep_iff (hi : i < c.count) : (reckon g keepsAwake c order c).isActive i = false ↔
    (c.isActive i = false ∧ ∀ j, c.Adjacent i j → ¬c.Changed g j) ∨
      (c.isActive i = true ∧ ¬c.Changed g i ∧ (∀ j, c.Adjacent i j → ¬c.Changed g j) ∧
        c.sleepingEnabled = true ∧ 59 ≤ c.sleep[i]?.getD 0 ∧
        ∀ id ∈ c.contents g i, keepsAwake id = false) := by
  cases hactive : c.isActive i with
  | true =>
    rw [asleep_iff_of_active horder hi hactive]
    simp only [Bool.true_eq_false, false_and, false_or, true_and]
  | false =>
    have hpassed : Passed i (c.isStirred g i) c (reckon g keepsAwake c order c) :=
      passed_of_asleep horder hi hactive
    rw [hpassed.active, hactive, Bool.or_false, isStirred_eq_false_iff]
    simp only [Bool.false_eq_true, false_and, or_false, true_and]

theorem sums_reckon (hi : i < c.count) : (reckon g keepsAwake c order c).checksums[i]?
    = if c.isActive i then some (c.checksum g i) else c.checksums[i]? := by
  cases hactive : c.isActive i with
  | false =>
    have hpassed : Passed i (c.isStirred g i) c (reckon g keepsAwake c order c) :=
      passed_of_asleep horder hi hactive
    exact hpassed.sum
  | true =>
    obtain ⟨_, _, d, -, hbefore, hafter⟩ := exists_turn_of_perm horder hi hactive g keepsAwake
    rw [hafter.sum, checksums_reconcile (hbefore.same.count ▸ hi)]
    exact if_pos rfl

theorem exists_balanced_of_perm : ∃ woken, ∃ slept ≤ c.count,
    Balanced woken slept c (reckon g keepsAwake c order c) := by
  have hactive : ∀ j ∈ order, c.isActive j = true :=
    fun j hj => (mem_turns.mp (horder.subset hj)).2
  obtain ⟨woken, slept, hslept, hbalanced⟩ :=
    exists_balanced_reckon hactive (horder.nodup_iff.mpr c.nodup_turns)
  have hturns : order.length ≤ c.count := by
    rw [horder.length_eq]
    exact (List.length_filter_le _ _).trans_eq List.length_range
  exact ⟨woken, slept, hslept.trans hturns, hbalanced⟩

end

theorem isDirty_reconcile (hj : j < c.count) (keepsAwake : Nat → Bool) (sum : UInt32) (k : Nat) :
    (c.reconcile keepsAwake j sum).isDirty k = true ↔
      c.isDirty k = true ∨ (j = k ∧ sum ≠ c.checksums[j]?.getD 0) := by
  have hslot : j < markSlots c.count := Nat.lt_of_lt_of_le hj c.count_le_markSlots
  unfold reconcile
  split_ifs with hsum
  · have hmark : (c.noteChange j sum).isDirty k = (c.setMark j).isDirty k := by
      obtain ⟨_, hwake⟩ := foldl_wake_eq (c.neighbours j) { c with
        checksums := c.checksums.setIfInBounds j sum
        sleep := c.sleep.setIfInBounds j 0
        dirty := c.dirty.setIfInBounds j true }
      rw [noteChange]
      exact (congrArg (·.isDirty k) hwake).trans rfl
    rw [hmark, isDirty_setMark, Bool.or_eq_true, decide_eq_true_iff, and_iff_left hslot,
      and_iff_left hsum, or_comm]
  · have hmark : (c.noteQuiet keepsAwake j).isDirty k = c.isDirty k := by
      rcases c.noteQuiet_eq keepsAwake j with ⟨_, hquiet⟩ | ⟨-, -, hquiet⟩ <;> rw [hquiet] <;> rfl
    rw [hmark, or_iff_left fun h => hsum h.2]

theorem isDirty_reckon {js : List Nat} (hjs : ∀ j ∈ js, j < d.count) (hnodup : js.Nodup)
    (hsums : ∀ j ∈ js, d.checksums[j]? = c.checksums[j]?) (k : Nat) :
    (reckon g keepsAwake c js d).isDirty k = true ↔
      d.isDirty k = true ∨ (k ∈ js ∧ c.checksum g k ≠ c.checksums[k]?.getD 0) := by
  induction js generalizing d with
  | nil => simp [reckon]
  | cons j js ih =>
    obtain ⟨hj, hjs⟩ := List.forall_mem_cons.mp hjs
    obtain ⟨hnot, hnodup⟩ := List.nodup_cons.mp hnodup
    obtain ⟨hsum, hsums⟩ := List.forall_mem_cons.mp hsums
    have hcount := (sameStamps_reconcile d (fun k => keepsAwake (g.cell k)) j
      (c.checksum g j)).count
    have hlater : ∀ l ∈ js, (d.reconcile (fun k => keepsAwake (g.cell k)) j
        (c.checksum g j)).checksums[l]? = c.checksums[l]? := by
      intro l hl
      rw [checksums_reconcile hj, if_neg (ne_of_mem_of_not_mem hl hnot).symm]
      exact hsums l hl
    have hrest := ih (fun l hl => hcount ▸ hjs l hl) hnodup hlater
    rw [reckon, List.foldl_cons]
    refine hrest.trans ?_
    rw [isDirty_reconcile hj, hsum, List.mem_cons, or_and_right, ← or_assoc]
    refine or_congr_left (or_congr_right ?_)
    constructor
    · rintro ⟨rfl, hchanged⟩
      exact ⟨rfl, hchanged⟩
    · rintro ⟨rfl, hchanged⟩
      exact ⟨rfl, hchanged⟩

/-- In whatever order the active chunks have their turns, activity is reckoned as it should be. -/
theorem reconciled_reckon (horder : order.Perm c.turns) :
    Reconciled g keepsAwake c (reckon g keepsAwake c order c) where
  asleep _ hi := asleep_iff horder hi
  sums _ hi := sums_reckon horder hi
  marks i := by
    have hin : ∀ j ∈ order, j < c.count := fun j hj => (mem_turns.mp (horder.subset hj)).1
    rw [isDirty_reckon hin (horder.nodup_iff.mpr c.nodup_turns) (fun _ _ => rfl), horder.mem_iff,
      mem_turns, changed_iff]
    refine or_congr_right (and_congr_left fun _ => ?_)
    exact ⟨fun h => h.2, fun h => ⟨lt_count_of_isActive h, h⟩⟩
  counts := by
    obtain ⟨woken, slept, -, hbalanced⟩ := exists_balanced_of_perm horder
    exact ⟨woken, slept, hbalanced⟩
  balance hwoke hslept := by
    obtain ⟨woken, slept, -, hbalanced⟩ := exists_balanced_of_perm horder
    exact hbalanced.activeCount hwoke hslept

/-- Which chunks sleep, which sums are stored, which marks are set and how the counts change, from
what was there before: and this for any order of the turns, not only that of the chunks. -/
theorem reconciliation_is_exact (c : Chunks) (g : Grid) (keepsAwake : MaterialId → Bool) :
    Reconciled g keepsAwake c (c.updateActivity g keepsAwake) ∧
      ∀ order : List Nat, order.Perm c.turns →
        Reconciled g keepsAwake c (reckon g keepsAwake c order c) := by
  refine ⟨?_, fun order horder => reconciled_reckon horder⟩
  rw [updateActivity_eq]
  exact reconciled_reckon (.refl c.turns)

end Sandfall.Chunks
