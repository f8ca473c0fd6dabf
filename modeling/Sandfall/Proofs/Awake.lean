import Sandfall.Proofs.Cells

/-! Which chunks are active. Waking, touching and painting only ever activate chunks of the map, and
with sleeping disabled nothing puts one to sleep. -/

namespace Sandfall.Chunks

theorem SameStamps.count {c d : Chunks} (h : SameStamps c d) : d.count = c.count := by
  simp only [Chunks.count, h.width, h.height]

theorem SameStamps.indexOf {c d : Chunks} (h : SameStamps c d) (cx cy : Nat) :
    d.indexOf cx cy = c.indexOf cx cy := by
  simp only [Chunks.indexOf, Chunks.across, h.width]

theorem SameStamps.ofCell {c d : Chunks} (h : SameStamps c d) (x y : Nat) :
    d.ofCell x y = c.ofCell x y :=
  h.indexOf _ _

theorem isActive_of_count_le (c : Chunks) {i : Nat} (hi : c.count ≤ i) : c.isActive i = false := by
  have hnone : c.active[i]? = none := Vector.getElem?_eq_none hi
  rw [isActive, hnone, Option.getD_none]

theorem lt_count_of_isActive {c : Chunks} {i : Nat} (h : c.isActive i = true) : i < c.count := by
  by_contra hi
  rw [c.isActive_of_count_le (Nat.le_of_not_lt hi)] at h
  cases h

theorem wake_eq (c : Chunks) (i : Nat) : ∃ woke, c.wake i = { c with
    sleep := c.sleep.setIfInBounds i 0, active := c.active.setIfInBounds i true, woke } := by
  unfold wake
  split_ifs with hi hactive
  -- an active chunk is not woken again
  · have hset : c.active.setIfInBounds i true = c.active := by
      ext j hj
      rw [Vector.getElem_setIfInBounds hj]
      split_ifs with hij
      · subst hij
        simpa [isActive, hj] using hactive.symm
      · rfl
    rw [hset]
    exact ⟨_, rfl⟩
  · exact ⟨_, rfl⟩
  · have hle : total c.width c.height ≤ i := Nat.le_of_not_lt hi
    rw [Vector.setIfInBounds_eq_of_size_le hle, Vector.setIfInBounds_eq_of_size_le hle]
    exact ⟨_, rfl⟩

theorem isActive_wake (c : Chunks) (i j : Nat) :
    (c.wake i).isActive j = (decide (i = j ∧ i < c.count) || c.isActive j) := by
  obtain ⟨_, hwake⟩ := c.wake_eq i
  rw [hwake]
  by_cases hij : i = j
  · subst hij
    rcases Nat.lt_or_ge i c.count with hi | hi
    · have hin : i < total c.width c.height := hi
      simp [isActive, hi, hin]
    · have hset : c.active.setIfInBounds i true = c.active :=
        Vector.setIfInBounds_eq_of_size_le hi
      rw [hset]
      change c.isActive i = _
      simp [Nat.not_lt.mpr hi]
  · simp [isActive, hij, Vector.getElem?_setIfInBounds_ne hij]

@[simp] theorem sleepingEnabled_wake (c : Chunks) (i : Nat) :
    (c.wake i).sleepingEnabled = c.sleepingEnabled := by
  obtain ⟨_, hwake⟩ := c.wake_eq i
  rw [hwake]

theorem isActive_touch (c : Chunks) (i j : Nat) :
    (c.touch i).isActive j = (decide (i = j ∧ i < c.count) || c.isActive j) :=
  isActive_wake c i j

theorem foldl_wake_eq (is : List Nat) (c : Chunks) : ∃ woke, is.foldl wake c = { c with
    sleep := is.foldl (fun s i => s.setIfInBounds i 0) c.sleep
    active := is.foldl (fun a i => a.setIfInBounds i true) c.active
    woke } := by
  induction is generalizing c with
  | nil => exact ⟨_, rfl⟩
  | cons i is ih =>
    obtain ⟨_, hwake⟩ := c.wake_eq i
    obtain ⟨_, hfold⟩ := ih (c.wake i)
    rw [List.foldl_cons, hfold, hwake]
    exact ⟨_, rfl⟩

theorem foldl_setIfInBounds {α : Type} {n : Nat} (v : Vector α n) (x : α) :
    (List.range n).foldl (fun v i => v.setIfInBounds i x) v = Vector.replicate n x := by
  have hget : ∀ (is : List Nat) (v : Vector α n) (j : Nat) (hj : j < n),
      (is.foldl (fun v i => v.setIfInBounds i x) v)[j] = if j ∈ is then x else v[j] := by
    intro is
    induction is with
    | nil => simp
    | cons i is ih =>
      intro v j hj
      rw [List.foldl_cons, ih, Vector.getElem_setIfInBounds hj]
      by_cases hij : i = j
      · simp [hij]
      · simp [hij, Ne.symm hij]
  ext j hj
  rw [hget, if_pos (List.mem_range.mpr hj), Vector.getElem_replicate]

theorem wakeAll_eq (c : Chunks) : ∃ woke, c.wakeAll = { c with
    sleep := Vector.replicate _ 0
    active := Vector.replicate _ true
    dirty := Vector.replicate _ true
    woke } := by
  obtain ⟨woke, hfold⟩ := foldl_wake_eq (List.range c.count) c
  have hsleep : (List.range c.count).foldl (fun s i => s.setIfInBounds i 0) c.sleep
      = Vector.replicate _ 0 := foldl_setIfInBounds c.sleep 0
  have hactive : (List.range c.count).foldl (fun a i => a.setIfInBounds i true) c.active
      = Vector.replicate _ true := foldl_setIfInBounds c.active true
  rw [hsleep, hactive] at hfold
  rw [wakeAll, hfold]
  exact ⟨woke, rfl⟩

theorem div_edge_lt_along {k n : Nat} (hk : k < n) : k / edge < along n := by
  simp only [along, edge]
  omega

theorem ofCell_lt {c : Chunks} {x y : Nat} (hx : x < c.width) (hy : y < c.height) :
    c.ofCell x y < c.count := by
  have hcx := div_edge_lt_along hx
  have hcy := div_edge_lt_along hy
  calc
    y / edge * along c.width + x / edge < y / edge * along c.width + along c.width := by omega
    _ = (y / edge + 1) * along c.width := by ring
    _ ≤ along c.height * along c.width := Nat.mul_le_mul_right _ hcy
    _ = c.count := Nat.mul_comm _ _

/-! Awake for good. -/

/-- Sleeping is disabled and every chunk is active. -/
structure Awake (c : Chunks) : Prop where
  disabled : c.sleepingEnabled = false
  active : ∀ i < c.count, c.isActive i = true

namespace Awake

variable {c d : Chunks}

theorem of_active (h : c.Awake) (hd : d.sleepingEnabled = c.sleepingEnabled)
    (hcount : d.count = c.count) (hactive : ∀ i, c.isActive i = true → d.isActive i = true) :
    d.Awake where
  disabled := hd.trans h.disabled
  active := by
    intro i hi
    rw [hcount] at hi
    exact hactive i (h.active i hi)

theorem wake (h : c.Awake) (i : Nat) : (c.wake i).Awake := by
  refine h.of_active (sleepingEnabled_wake c i) (sameStamps_wake c i).count ?_
  intro j hj
  rw [isActive_wake, hj, Bool.or_true]

theorem touch (h : c.Awake) (i : Nat) : (c.touch i).Awake :=
  ⟨(h.wake i).disabled, (h.wake i).active⟩

theorem foldl {α : Type} {f : Chunks → α → Chunks} (hf : ∀ c x, Awake c → Awake (f c x))
    (h : c.Awake) (xs : List α) : (xs.foldl f c).Awake := by
  induction xs generalizing c with
  | nil => exact h
  | cons x xs ih => exact ih (hf c x h)

theorem noteChange (h : c.Awake) (i : Nat) (sum : UInt32) : (c.noteChange i sum).Awake := by
  have hset : Awake { c with
      checksums := c.checksums.setIfInBounds i sum
      sleep := c.sleep.setIfInBounds i 0
      dirty := c.dirty.setIfInBounds i true } := ⟨h.disabled, h.active⟩
  exact foldl (fun _ i hc => wake hc i) hset _

theorem noteQuiet (h : c.Awake) (keepsAwake : Nat → Bool) (i : Nat) :
    (c.noteQuiet keepsAwake i).Awake := by
  simp only [Chunks.noteQuiet, h.disabled, Bool.not_false, Bool.true_or, if_true]
  exact ⟨rfl, h.active⟩

theorem updateActivity (h : c.Awake) (g : Grid) (keepsAwake : MaterialId → Bool) :
    (c.updateActivity g keepsAwake).Awake := by
  apply foldl _ h
  rintro c ⟨i, sum⟩ hc
  simp only [reconcile]
  split_ifs
  · exact hc.noteChange i sum
  · exact hc.noteQuiet _ i

end Awake

theorem sleepingEnabled_foldl_wake (is : List Nat) (c : Chunks) :
    (is.foldl wake c).sleepingEnabled = c.sleepingEnabled := by
  obtain ⟨_, hfold⟩ := foldl_wake_eq is c
  rw [hfold]

theorem sleepingEnabled_wakeAll (c : Chunks) : c.wakeAll.sleepingEnabled = c.sleepingEnabled := by
  obtain ⟨_, hwake⟩ := c.wakeAll_eq
  rw [hwake]

theorem sleepingEnabled_updateActivity (c : Chunks) (g : Grid) (keepsAwake : MaterialId → Bool) :
    (c.updateActivity g keepsAwake).sleepingEnabled = c.sleepingEnabled := by
  have hone : ∀ (c : Chunks) (i : Nat) (sum : UInt32) (keepsAwake : Nat → Bool),
      (c.reconcile keepsAwake i sum).sleepingEnabled = c.sleepingEnabled := by
    intro c i sum keepsAwake
    simp only [reconcile, noteChange, noteQuiet]
    split_ifs
    · exact sleepingEnabled_foldl_wake _ _
    all_goals rfl
  rw [updateActivity]
  generalize c.activeSums g = sums
  induction sums generalizing c with
  | nil => rfl
  | cons x sums ih => rw [List.foldl_cons, ih, hone]

theorem awake_wakeAll {c : Chunks} (h : c.sleepingEnabled = false) : c.wakeAll.Awake := by
  obtain ⟨_, hwake⟩ := c.wakeAll_eq
  rw [hwake]
  refine ⟨h, fun i hi => ?_⟩
  have hin : i < total c.width c.height := hi
  simp [isActive, hin]

end Sandfall.Chunks
