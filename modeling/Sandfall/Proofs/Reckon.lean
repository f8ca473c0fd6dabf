import Sandfall.Proofs.Tiling

/-! What reckoning activity does to one chunk. Only a chunk that was active is reckoned, and once:
before and after its turn a changed chunk next to it may wake it, but nothing else happens to it. So
a chunk that sleeps afterwards slept before, or was quiet for long and holds nothing that must stay
awake. -/

namespace Sandfall.Chunks

variable {c d e : Chunks} {g : Grid} {i j k : Nat}

/-- The chunk has at most been woken. -/
structure Spared (i : Nat) (c d : Chunks) : Prop where
  same : c.SameStamps d
  sum : d.checksums[i]? = c.checksums[i]?
  active : c.isActive i = true → d.isActive i = true
  sleep : d.sleep[i]?.getD 0 = c.sleep[i]?.getD 0 ∨ d.sleep[i]?.getD 0 = 0

/-- The chunk has been woken, or nothing has happened to it. -/
structure Passed (i : Nat) (woken : Bool) (c d : Chunks) : Prop where
  same : c.SameStamps d
  enabled : d.sleepingEnabled = c.sleepingEnabled
  sum : d.checksums[i]? = c.checksums[i]?
  active : d.isActive i = (woken || c.isActive i)
  sleep : d.sleep[i]?.getD 0 = if woken then 0 else c.sleep[i]?.getD 0

namespace Passed

variable {woken woken' : Bool}

theorem refl (i : Nat) (c : Chunks) : Passed i false c c := ⟨.refl c, rfl, rfl, rfl, rfl⟩

theorem trans (h : Passed i woken c d) (h' : Passed i woken' d e) :
    Passed i (woken || woken') c e where
  same := h.same.trans h'.same
  enabled := h'.enabled.trans h.enabled
  sum := h'.sum.trans h.sum
  active := by
    rw [h'.active, h.active, Bool.or_left_comm, Bool.or_assoc]
  sleep := by
    rw [h'.sleep, h.sleep]
    cases woken <;> cases woken' <;> rfl

theorem spared (h : Passed i woken c d) : Spared i c d where
  same := h.same
  sum := h.sum
  active := by
    intro hactive
    rw [h.active, hactive, Bool.or_true]
  sleep := by
    rw [h.sleep]
    split_ifs
    · exact .inr rfl
    · exact .inl rfl

end Passed

theorem getD_setIfInBounds {α : Type} {n : Nat} (v : Vector α n) (i j : Nat) (x d : α) :
    (v.setIfInBounds i x)[j]?.getD d = if i = j ∧ i < n then x else v[j]?.getD d := by
  by_cases hij : i = j
  · subst hij
    rw [Vector.getElem?_setIfInBounds_self]
    by_cases hi : i < n <;> simp [hi]
  · rw [Vector.getElem?_setIfInBounds_ne hij, if_neg (fun h => hij h.1)]

theorem passed_wake (hi : i < c.count) (j : Nat) : Passed i (decide (j = i)) c (c.wake j) where
  same := sameStamps_wake c j
  enabled := sleepingEnabled_wake c j
  sum := by
    obtain ⟨_, hwake⟩ := c.wake_eq j
    rw [hwake]
  active := by
    have hin : j = i → j < c.count := fun hji => hji ▸ hi
    simp only [isActive_wake, and_iff_left_of_imp hin]
  sleep := by
    have hin : j = i → j < total c.width c.height := fun hji => hji ▸ hi
    obtain ⟨_, hwake⟩ := c.wake_eq j
    rw [hwake]
    simp only [getD_setIfInBounds, and_iff_left_of_imp hin, decide_eq_true_eq]

theorem passed_foldl_wake (hi : i < c.count) (js : List Nat) :
    Passed i (decide (i ∈ js)) c (js.foldl wake c) := by
  induction js generalizing c with
  | nil => exact .refl i c
  | cons j js ih =>
    have hj := passed_wake hi j
    have hjs := ih (hj.same.count ▸ hi)
    have hmem : decide (i ∈ j :: js) = (decide (j = i) || decide (i ∈ js)) := by
      simp only [List.mem_cons, Bool.decide_or, eq_comm]
    rw [List.foldl_cons, hmem]
    exact hj.trans hjs

/-- A quiet chunk counts on or starts anew, or it has counted far enough and falls asleep. -/
theorem noteQuiet_eq (c : Chunks) (keepsAwake : Nat → Bool) (i : Nat) :
    (∃ ticks, c.noteQuiet keepsAwake i = { c with sleep := c.sleep.setIfInBounds i ticks }) ∨
      (sleepThreshold ≤ tickUp (c.sleep[i]?.getD 0) ∧ (∀ k ∈ c.cellsOf i, keepsAwake k = false) ∧
        c.noteQuiet keepsAwake i = { c with
          sleep := c.sleep.setIfInBounds i (tickUp (c.sleep[i]?.getD 0))
          active := c.active.setIfInBounds i false
          slept := countUp c.slept }) := by
  simp only [noteQuiet]
  split_ifs with hshort hkept
  · exact .inl ⟨_, rfl⟩
  · exact .inl ⟨0, by rw [Vector.setIfInBounds_setIfInBounds]⟩
  · rw [Bool.or_eq_true, not_or, decide_eq_true_iff, UInt8.not_lt] at hshort
    refine .inr ⟨hshort.2, fun k hk => ?_, rfl⟩
    exact Bool.eq_false_of_not_eq_true fun hkeep => hkept (List.any_eq_true.mpr ⟨k, hk, hkeep⟩)

theorem sameStamps_reconcile (c : Chunks) (keepsAwake : Nat → Bool) (j : Nat) (sum : UInt32) :
    SameStamps c (c.reconcile keepsAwake j sum) := by
  unfold reconcile
  split_ifs
  · exact sameStamps_noteChange c j sum
  · exact sameStamps_noteQuiet c keepsAwake j

theorem checksums_foldl_wake (js : List Nat) (c : Chunks) (k : Nat) :
    (js.foldl wake c).checksums[k]? = c.checksums[k]? := by
  obtain ⟨_, hwake⟩ := foldl_wake_eq js c
  rw [hwake]

/-- A turn stores the sum of its chunk, whether that is new or not. -/
theorem checksums_reconcile (hj : j < c.count) (keepsAwake : Nat → Bool) (sum : UInt32) (k : Nat) :
    (c.reconcile keepsAwake j sum).checksums[k]?
      = if j = k then some sum else c.checksums[k]? := by
  by_cases hsum : sum = c.checksums[j]?.getD 0
  · have hsame : (c.noteQuiet keepsAwake j).checksums[k]? = c.checksums[k]? := by
      rcases c.noteQuiet_eq keepsAwake j with ⟨_, hquiet⟩ | ⟨-, -, hquiet⟩ <;> rw [hquiet]
    rw [reconcile, if_neg (not_not_intro hsum), hsame]
    split_ifs with hjk
    · rw [← hjk, hsum]
      exact Checked.getElem?_eq_getD hj 0
    · rfl
  · rw [reconcile, if_pos hsum, noteChange]
    refine (checksums_foldl_wake _ _ k).trans ?_
    rw [Vector.getElem?_setIfInBounds]
    exact if_congr Iff.rfl (if_pos hj) rfl

theorem passed_reconcile (hi : i < c.count) (hij : j ≠ i) (keepsAwake : Nat → Bool)
    (sum : UInt32) : Passed i (decide (sum ≠ c.checksums[j]?.getD 0 ∧ i ∈ c.neighbours j)) c
      (c.reconcile keepsAwake j sum) := by
  have hother : ∀ {α : Type} {n : Nat} (v : Vector α n) (x : α),
      (v.setIfInBounds j x)[i]? = v[i]? := fun v x => Vector.getElem?_setIfInBounds_ne hij
  have hentry : ∀ {α : Type} {n : Nat} {d : α} (v : Vector α n) (x : α),
      (v.setIfInBounds j x)[i]?.getD d = v[i]?.getD d := fun v x => by rw [hother]
  unfold reconcile
  split_ifs with hsum
  · have hset : Passed i false c { c with
        checksums := c.checksums.setIfInBounds j sum
        sleep := c.sleep.setIfInBounds j 0
        dirty := c.dirty.setIfInBounds j true } :=
      ⟨⟨_, _, _, _, _, _, _, rfl⟩, rfl, hother _ _, rfl, hentry _ _⟩
    have hmem : decide (sum ≠ c.checksums[j]?.getD 0 ∧ i ∈ c.neighbours j)
        = decide (i ∈ c.neighbours j) := decide_eq_decide.mpr (and_iff_right hsum)
    rw [noteChange, hmem]
    exact hset.trans (passed_foldl_wake (hset.same.count ▸ hi) _)
  · rw [decide_eq_false fun hboth => hsum hboth.1]
    rcases c.noteQuiet_eq keepsAwake j with ⟨ticks, hquiet⟩ | ⟨-, -, hquiet⟩
    · rw [hquiet]
      exact ⟨⟨_, _, _, _, _, _, _, rfl⟩, rfl, rfl, rfl, hentry _ _⟩
    · rw [hquiet]
      exact ⟨⟨_, _, _, _, _, _, _, rfl⟩, rfl, rfl, hentry _ _, hentry _ _⟩

/-! The turns of a tick. -/

theorem SameStamps.neighbours (h : SameStamps c d) (j : Nat) : d.neighbours j = c.neighbours j := by
  obtain ⟨_, _, _, _, _, _, _, rfl⟩ := h
  rfl

def turns (c : Chunks) : List Nat := (List.range c.count).filter c.isActive

/-- Another chunk, next to this one, holds something else than was last seen. -/
def stirs (g : Grid) (c : Chunks) (i j : Nat) : Bool :=
  j ≠ i ∧ c.checksum g j ≠ c.checksums[j]?.getD 0 ∧ i ∈ c.neighbours j

/-- The turns of some chunks, with the sums of their contents in the map `c`. -/
def reckon (g : Grid) (keepsAwake : MaterialId → Bool) (c : Chunks) (js : List Nat) (d : Chunks) :
    Chunks :=
  js.foldl (fun d j => d.reconcile (fun k => keepsAwake (g.cell k)) j (c.checksum g j)) d

variable {keepsAwake : MaterialId → Bool}

theorem mem_turns : j ∈ c.turns ↔ j < c.count ∧ c.isActive j = true := by
  rw [turns, List.mem_filter, List.mem_range]

theorem nodup_turns (c : Chunks) : c.turns.Nodup := List.nodup_range.filter _

theorem updateActivity_eq (c : Chunks) (g : Grid) (keepsAwake : MaterialId → Bool) :
    c.updateActivity g keepsAwake = reckon g keepsAwake c c.turns c :=
  List.foldl_map

theorem checksums_reckon {js : List Nat} (hjs : ∀ j ∈ js, j < d.count) (hk : k ∉ js) :
    (reckon g keepsAwake c js d).checksums[k]? = d.checksums[k]? := by
  induction js generalizing d with
  | nil => rfl
  | cons j js ih =>
    obtain ⟨hj, hjs⟩ := List.forall_mem_cons.mp hjs
    rw [List.mem_cons, not_or] at hk
    obtain ⟨hkj, hk⟩ := hk
    have hcount := (sameStamps_reconcile d (fun k => keepsAwake (g.cell k)) j
      (c.checksum g j)).count
    rw [reckon, List.foldl_cons]
    refine (ih (fun l hl => hcount ▸ hjs l hl) hk).trans ?_
    rw [checksums_reconcile hj, if_neg (Ne.symm hkj)]

theorem passed_reckon {js : List Nat} (hi : i < c.count) (hjs : ∀ j ∈ js, j < c.count)
    (hnodup : js.Nodup) (hother : i ∉ js) (hcd : c.SameStamps d)
    (hsums : ∀ j ∈ js, d.checksums[j]? = c.checksums[j]?) :
    Passed i (js.any (stirs g c i)) d (reckon g keepsAwake c js d) := by
  induction js generalizing d with
  | nil => exact .refl i d
  | cons j js ih =>
    obtain ⟨hj, hjs⟩ := List.forall_mem_cons.mp hjs
    rw [List.mem_cons, not_or] at hother
    obtain ⟨hij, hother⟩ := hother
    obtain ⟨hjnot, hnodup⟩ := List.nodup_cons.mp hnodup
    obtain ⟨hsum, hsums⟩ := List.forall_mem_cons.mp hsums
    have hturn := passed_reconcile (hcd.count ▸ hi) (Ne.symm hij)
      (fun k => keepsAwake (g.cell k)) (c.checksum g j)
    have hstirs : decide (c.checksum g j ≠ d.checksums[j]?.getD 0 ∧ i ∈ d.neighbours j)
        = stirs g c i j := by
      rw [stirs, hsum, hcd.neighbours, decide_eq_decide]
      exact (and_iff_right (Ne.symm hij)).symm
    rw [hstirs] at hturn
    refine hturn.trans (ih hjs hnodup hother (hcd.trans hturn.same) fun k hk => ?_)
    rw [checksums_reconcile (hcd.count ▸ hj), if_neg (ne_of_mem_of_not_mem hk hjnot).symm]
    exact hsums k hk

/-- A changed chunk next to this one wakes it. -/
def isStirred (c : Chunks) (g : Grid) (i : Nat) : Bool := c.turns.any (stirs g c i)

section

variable {order : List Nat} (horder : order.Perm c.turns)
include horder

/-- A chunk that sleeps has no turn, in whatever order the others have theirs. -/
theorem passed_of_asleep (hi : i < c.count) (hidle : c.isActive i = false) :
    Passed i (c.isStirred g i) c (reckon g keepsAwake c order c) := by
  have hstirred : c.isStirred g i = order.any (stirs g c i) := horder.symm.any_eq
  rw [hstirred]
  refine passed_reckon hi (fun j hj => (mem_turns.mp (horder.subset hj)).1)
    (horder.nodup_iff.mpr c.nodup_turns) (fun hmem => ?_) (.refl c) fun _ _ => rfl
  cases hidle.symm.trans (mem_turns.mp (horder.subset hmem)).2

/-- An active chunk has its turn once, and may be woken before and after it. -/
theorem exists_turn_of_perm (hi : i < c.count) (hactive : c.isActive i = true) (g : Grid)
    (keepsAwake : MaterialId → Bool) :
    ∃ before after d, (before || after) = c.isStirred g i ∧ Passed i before c d ∧
      Passed i after (d.reconcile (fun k => keepsAwake (g.cell k)) i (c.checksum g i))
        (reckon g keepsAwake c order c) := by
  have hstirred : c.isStirred g i = order.any (stirs g c i) := horder.symm.any_eq
  have hin : ∀ j ∈ order, j < c.count := fun j hj => (mem_turns.mp (horder.subset hj)).1
  have hnodup := horder.nodup_iff.mpr c.nodup_turns
  obtain ⟨before, after, rfl⟩ :=
    List.append_of_mem (horder.symm.subset (mem_turns.mpr ⟨hi, hactive⟩))
  obtain ⟨hnot, hnodup⟩ := List.nodup_cons.mp (List.nodup_middle.mp hnodup)
  rw [List.mem_append, not_or] at hnot
  obtain ⟨hbefore, hafter, hcross⟩ := List.nodup_append.mp hnodup
  have hearlier : ∀ j ∈ before, j < c.count := fun j hj => hin j (List.mem_append_left _ hj)
  have hpassed : Passed i (before.any (stirs g c i)) c (reckon g keepsAwake c before c) :=
    passed_reckon hi hearlier hbefore hnot.1 (.refl c) fun _ _ => rfl
  -- the turns before it store sums of their own chunks only
  have hstored : ∀ j ∈ after, (reckon g keepsAwake c before c).checksums[j]? = c.checksums[j]? :=
    fun j hj => checksums_reckon hearlier fun hmem => hcross j hmem j hj rfl
  have hsplit : reckon g keepsAwake c (before ++ i :: after) c = reckon g keepsAwake c after
      ((reckon g keepsAwake c before c).reconcile (fun k => keepsAwake (g.cell k)) i
        (c.checksum g i)) := by
    simp only [reckon, List.foldl_append, List.foldl_cons]
  rw [hsplit]
  generalize reckon g keepsAwake c before c = d at hpassed hstored
  have hturn := sameStamps_reconcile d (fun k => keepsAwake (g.cell k)) i (c.checksum g i)
  refine ⟨before.any (stirs g c i), after.any (stirs g c i), d, ?_, hpassed, ?_⟩
  · have hself : stirs g c i i = false := decide_eq_false fun h => h.1 rfl
    rw [hstirred, List.any_append, List.any_cons, hself, Bool.false_or]
  · refine passed_reckon hi (fun j hj => ?_) hafter hnot.2 (hpassed.same.trans hturn) fun j hj => ?_
    · exact hin j (List.mem_append_right _ (List.mem_cons_of_mem _ hj))
    · have hne : j ≠ i := ne_of_mem_of_not_mem hj hnot.2
      rw [checksums_reconcile (hpassed.same.count ▸ hi), if_neg hne.symm]
      exact hstored j hj

end

theorem passed_updateActivity (hi : i < c.count) (hidle : c.isActive i = false) :
    Passed i (c.isStirred g i) c (c.updateActivity g keepsAwake) := by
  rw [updateActivity_eq]
  exact passed_of_asleep (.refl _) hi hidle

theorem exists_turn (hi : i < c.count) (hactive : c.isActive i = true) (g : Grid)
    (keepsAwake : MaterialId → Bool) :
    ∃ before after d, (before || after) = c.isStirred g i ∧ Passed i before c d ∧
      Passed i after (d.reconcile (fun k => keepsAwake (g.cell k)) i (c.checksum g i))
        (c.updateActivity g keepsAwake) := by
  rw [updateActivity_eq]
  exact exists_turn_of_perm (.refl _) hi hactive g keepsAwake

/-- A chunk that has its turn sleeps then if and only if its contents are those last seen, it has
been quiet for long enough, nothing in it must stay awake, and it may sleep at all. -/
theorem asleep_reconcile_iff {keepsAwake : Nat → Bool} {sum : UInt32} (hi : i < c.count)
    (hactive : c.isActive i = true) : (c.reconcile keepsAwake i sum).isActive i = false ↔
      sum = c.checksums[i]?.getD 0 ∧ c.sleepingEnabled = true ∧
        sleepThreshold ≤ tickUp (c.sleep[i]?.getD 0) ∧ ∀ k ∈ c.cellsOf i, keepsAwake k = false := by
  have hawake : ∀ {d : Chunks}, d.isActive i = true → ¬d.isActive i = false :=
    fun htrue hfalse => Bool.noConfusion (htrue.symm.trans hfalse)
  by_cases hsum : sum = c.checksums[i]?.getD 0
  · have hin : i < total c.width c.height := hi
    rw [reconcile, if_neg (not_not_intro hsum), noteQuiet]
    simp only [hsum, true_and]
    split_ifs with hshort hkept
    · rw [Bool.or_eq_true, decide_eq_true_iff, Bool.not_eq_true'] at hshort
      refine iff_of_false (hawake hactive) fun hquiet => ?_
      rcases hshort with hdisabled | hshort
      · cases hdisabled.symm.trans hquiet.1
      · exact UInt8.not_lt.mpr hquiet.2.1 hshort
    · obtain ⟨k, hk, hkeep⟩ := List.any_eq_true.mp hkept
      refine iff_of_false (hawake hactive) fun hquiet => ?_
      cases hkeep.symm.trans (hquiet.2.2 k hk)
    · rw [Bool.or_eq_true, not_or, decide_eq_true_iff, UInt8.not_lt, Bool.not_eq_true',
        Bool.not_eq_false] at hshort
      refine iff_of_true ?_ ⟨hshort.1, hshort.2, fun k hk => ?_⟩
      · rw [isActive, getD_setIfInBounds, if_pos ⟨rfl, hin⟩]
      · exact Bool.eq_false_of_not_eq_true fun hkeep => hkept (List.any_eq_true.mpr ⟨k, hk, hkeep⟩)
  · rw [reconcile, if_pos hsum, noteChange]
    refine iff_of_false (hawake ?_) fun hquiet => hsum hquiet.1
    exact (passed_foldl_wake (c := { c with
        checksums := c.checksums.setIfInBounds i sum
        sleep := c.sleep.setIfInBounds i 0
        dirty := c.dirty.setIfInBounds i true }) hi (c.neighbours i)).spared.active hactive

/-- A chunk that sleeps after activity was reckoned slept before or has been quiet for long. -/
theorem asleep_of_updateActivity (hi : i < c.count)
    (h : (c.updateActivity g keepsAwake).isActive i = false) :
    (c.updateActivity g keepsAwake).checksums[i]? = c.checksums[i]? ∧ (c.isActive i = false ∨
      (c.checksums[i]? = some (c.checksum g i) ∧ c.sleep[i]?.getD 0 ≠ 0 ∧
        ∀ id ∈ c.contents g i, keepsAwake id = false)) := by
  cases hactive : c.isActive i with
  | false => exact ⟨(passed_updateActivity hi hactive).sum, .inl rfl⟩
  | true =>
    obtain ⟨_, _, d, -, hbefore, hafter⟩ := exists_turn hi hactive g keepsAwake
    have hin : i < d.count := hbefore.same.count ▸ hi
    have hbefore := hbefore.spared
    have hafter := hafter.spared
    have hidle : (d.reconcile (fun k => keepsAwake (g.cell k)) i (c.checksum g i)).isActive i
        = false := Bool.eq_false_of_not_eq_true fun hawake => by
      cases h.symm.trans (hafter.active hawake)
    obtain ⟨hsame, -, hlong, hnone⟩ := (asleep_reconcile_iff hin (hbefore.active hactive)).mp hidle
    have hlong : d.sleep[i]?.getD 0 ≠ 0 := fun hzero => by
      rw [hzero] at hlong
      exact absurd hlong (by decide)
    have hstored : c.checksums[i]? = some (c.checksum g i) := by
      rw [hsame, hbefore.sum]
      exact Checked.getElem?_eq_getD hi 0
    refine ⟨?_, .inr ⟨hstored, ?_, ?_⟩⟩
    · rw [hafter.sum, checksums_reconcile hin, if_pos rfl, hstored]
    · rcases hbefore.sleep with hsleep | hsleep
      · rwa [← hsleep]
      · exact absurd hsleep hlong
    · intro id hid
      obtain ⟨k, hk, rfl⟩ := List.mem_map.mp hid
      exact hnone k (hbefore.same.cellsOf i ▸ hk)

end Sandfall.Chunks
