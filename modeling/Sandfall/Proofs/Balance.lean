import Sandfall.Proofs.Reckon

/-! The balance of waking and sleeping. A chunk that is woken is counted when it slept, a chunk that
falls asleep is counted when it was active, so the number of active chunks grows by those woken and
shrinks by those put to sleep. The counts stop at the largest word. -/

namespace Sandfall.Chunks

def countLimit : Nat := UInt32.size - 1

theorem toNat_countUp (n : UInt32) : (countUp n).toNat = min countLimit (n.toNat + 1) := by
  have hlt := n.toNat_lt
  unfold countUp countLimit
  split_ifs with hfull
  · rw [hfull]
    rfl
  · have hne : n.toNat ≠ 4294967295 := fun heq => hfull (UInt32.toNat_inj.mp heq)
    have hsize : UInt32.size = 4294967296 := rfl
    rw [UInt32.toNat_add]
    change (n.toNat + 1) % 2 ^ 32 = _
    omega

theorem activeCount_eq (c : Chunks) : c.activeCount = c.active.toList.countP id := by
  have hstep : ∀ (n : Nat) (a : Bool), (if a then n + 1 else n) = n + if id a then 1 else 0 := by
    intro n a
    cases a <;> rfl
  rw [activeCount, ← Vector.foldl_toList, foldl_countP hstep, Nat.zero_add]

/-- Only whether the chunk was active before and is active then matters. -/
theorem activeCount_set {c d : Chunks} {i : Nat} {a : Bool} (hi : i < c.count)
    (hd : d.active.toList = c.active.toList.set i a) :
    d.activeCount + (c.isActive i).toNat = c.activeCount + a.toNat := by
  have hlt : i < c.active.toList.length := by rwa [Vector.length_toList]
  have hset := List.countP_set (p := id) (a := a) hlt
  have hle := List.boole_getElem_le_countP (p := id) hlt
  have hget : c.isActive i = c.active.toList[i] := by
    have hin : i < total c.width c.height := hi
    rw [isActive, Vector.getElem?_eq_getElem hin, Option.getD_some, Vector.getElem_toList]
  rw [activeCount_eq, activeCount_eq, hd, hset, hget]
  have htoNat : ∀ x : Bool, (if id x = true then 1 else 0) = x.toNat := by decide
  rw [htoNat] at hle
  rw [htoNat, htoNat]
  omega

/-- So many chunks have been woken, and so many put to sleep. -/
structure Balanced (woken slept : Nat) (c d : Chunks) : Prop where
  active : d.activeCount + slept = c.activeCount + woken
  woke : d.woke.toNat = min countLimit (c.woke.toNat + woken)
  slept : d.slept.toNat = min countLimit (c.slept.toNat + slept)

theorem le_countLimit (n : UInt32) : n.toNat ≤ countLimit := Nat.le_pred_of_lt n.toNat_lt

namespace Balanced

variable {c d e : Chunks} {woken woken' slept slept' : Nat}

theorem of_same (hactive : d.activeCount = c.activeCount) (hwoke : d.woke = c.woke)
    (hslept : d.slept = c.slept) : Balanced 0 0 c d where
  active := by rw [hactive]
  woke := by rw [hwoke, Nat.add_zero, min_eq_right (le_countLimit _)]
  slept := by rw [hslept, Nat.add_zero, min_eq_right (le_countLimit _)]

theorem trans (h : Balanced woken slept c d) (h' : Balanced woken' slept' d e) :
    Balanced (woken + woken') (slept + slept') c e where
  active := by
    have hcd := h.active
    have hde := h'.active
    omega
  woke := by
    have hcd := h.woke
    have hde := h'.woke
    omega
  slept := by
    have hcd := h.slept
    have hde := h'.slept
    omega

theorem activeCount (h : Balanced woken slept c d) (hwoke : d.woke.toNat < countLimit)
    (hslept : d.slept.toNat < countLimit) :
    (d.activeCount : Int) - c.activeCount
      = (d.woke.toNat - c.woke.toNat) - (d.slept.toNat - c.slept.toNat) := by
  have hactive := h.active
  have hwoken := h.woke
  have hasleep := h.slept
  omega

end Balanced

theorem exists_balanced_foldl {α : Type} {f : Chunks → α → Chunks}
    (hf : ∀ c x, ∃ woken, Balanced woken 0 c (f c x)) (xs : List α) (c : Chunks) :
    ∃ woken, Balanced woken 0 c (xs.foldl f c) := by
  induction xs generalizing c with
  | nil => exact ⟨0, .of_same rfl rfl rfl⟩
  | cons x xs ih =>
    obtain ⟨woken, hx⟩ := hf c x
    obtain ⟨woken', hxs⟩ := ih (f c x)
    exact ⟨_, hx.trans hxs⟩

theorem exists_balanced_wake (c : Chunks) (i : Nat) : ∃ woken, Balanced woken 0 c (c.wake i) := by
  unfold wake
  split_ifs with hi hactive
  · exact ⟨0, .of_same rfl rfl rfl⟩
  · refine ⟨1, ?_, toNat_countUp c.woke, ?_⟩
    · have hset := activeCount_set (d := { c with
        sleep := c.sleep.setIfInBounds i 0
        active := c.active.setIfInBounds i true
        woke := countUp c.woke }) hi Vector.toList_setIfInBounds
      rw [Bool.eq_false_of_not_eq_true hactive] at hset
      exact hset
    · exact (min_eq_right (le_countLimit _)).symm
  · exact ⟨0, .of_same rfl rfl rfl⟩

theorem exists_balanced_noteChange (c : Chunks) (i : Nat) (sum : UInt32) :
    ∃ woken, Balanced woken 0 c (c.noteChange i sum) := by
  obtain ⟨woken, hwake⟩ := exists_balanced_foldl exists_balanced_wake (c.neighbours i)
    { c with
      checksums := c.checksums.setIfInBounds i sum
      sleep := c.sleep.setIfInBounds i 0
      dirty := c.dirty.setIfInBounds i true }
  exact ⟨woken, hwake.active, hwake.woke, hwake.slept⟩

theorem exists_balanced_noteQuiet {c : Chunks} {i : Nat} (hactive : c.isActive i = true)
    (keepsAwake : Nat → Bool) :
    ∃ slept ≤ 1, Balanced 0 slept c (c.noteQuiet keepsAwake i) := by
  rcases c.noteQuiet_eq keepsAwake i with ⟨ticks, hquiet⟩ | ⟨-, -, hquiet⟩
  · rw [hquiet]
    exact ⟨0, Nat.zero_le 1, .of_same rfl rfl rfl⟩
  · rw [hquiet]
    refine ⟨1, le_rfl, ?_, ?_, toNat_countUp c.slept⟩
    · have hset := activeCount_set (d := { c with
        sleep := c.sleep.setIfInBounds i (tickUp (c.sleep[i]?.getD 0))
        active := c.active.setIfInBounds i false
        slept := countUp c.slept }) (lt_count_of_isActive hactive) Vector.toList_setIfInBounds
      rw [hactive] at hset
      exact hset
    · exact (min_eq_right (le_countLimit _)).symm

theorem exists_balanced_reconcile {c : Chunks} {i : Nat} (hactive : c.isActive i = true)
    (keepsAwake : Nat → Bool) (sum : UInt32) :
    ∃ woken, ∃ slept ≤ 1, Balanced woken slept c (c.reconcile keepsAwake i sum) := by
  unfold reconcile
  split_ifs
  · obtain ⟨woken, hchange⟩ := exists_balanced_noteChange c i sum
    exact ⟨woken, 0, Nat.zero_le 1, hchange⟩
  · exact ⟨0, exists_balanced_noteQuiet hactive keepsAwake⟩

/-- Turns of chunks that are active keep the balance: none of them puts another one to sleep. -/
theorem exists_balanced_reckon {g : Grid} {keepsAwake : MaterialId → Bool} {c d : Chunks}
    {js : List Nat} (hjs : ∀ j ∈ js, d.isActive j = true) (hnodup : js.Nodup) :
    ∃ woken, ∃ slept ≤ js.length, Balanced woken slept d (reckon g keepsAwake c js d) := by
  induction js generalizing d with
  | nil => exact ⟨0, 0, le_rfl, .of_same rfl rfl rfl⟩
  | cons j js ih =>
    obtain ⟨hj, hjs⟩ := List.forall_mem_cons.mp hjs
    obtain ⟨hnot, hnodup⟩ := List.nodup_cons.mp hnodup
    have hstill : ∀ k ∈ js, (d.reconcile (fun k => keepsAwake (g.cell k)) j
        (c.checksum g j)).isActive k = true := by
      intro k hk
      have hne : j ≠ k := (ne_of_mem_of_not_mem hk hnot).symm
      exact (passed_reconcile (lt_count_of_isActive (hjs k hk)) hne _ _).spared.active (hjs k hk)
    obtain ⟨woken, slept, hone, hturn⟩ := exists_balanced_reconcile hj
      (fun k => keepsAwake (g.cell k)) (c.checksum g j)
    obtain ⟨woken', slept', hmany, hrest⟩ := ih hstill hnodup
    refine ⟨woken + woken', slept + slept', ?_, hturn.trans hrest⟩
    rw [List.length_cons]
    omega

end Sandfall.Chunks
