import Sandfall.Firing
import Sandfall.Chunks.Activity
import Mathlib.Tactic

/-! Cells, stamps and what a write leaves alone. Writing a cell changes that cell and the activity
of its chunk; the dimensions and the stamps stay. -/

namespace Sandfall

theorem foldl_countP {α : Type} {f : Nat → α → Nat} {p : α → Bool}
    (hf : ∀ n x, f n x = n + if p x then 1 else 0) (xs : List α) (n : Nat) :
    xs.foldl f n = n + xs.countP p := by
  induction xs generalizing n with
  | nil => rfl
  | cons x xs ih =>
    rw [List.foldl_cons, ih, hf, List.countP_cons]
    omega

namespace Grid

theorem cell_set_self {g : Grid} {i : Nat} (hi : i < g.size) (id : MaterialId) :
    (g.set i id).cell i = id := by
  have h : (g.cells.setIfInBounds i id)[i]? = some id :=
    Vector.getElem?_setIfInBounds_self.trans (if_pos hi)
  exact congrArg (·.getD MaterialId.outside) h

theorem cell_set_of_ne (g : Grid) {i j : Nat} (h : i ≠ j) (id : MaterialId) :
    (g.set i id).cell j = g.cell j :=
  congrArg (·.getD MaterialId.outside) (Vector.getElem?_setIfInBounds_ne h)

theorem ext_cell {g h : Grid} (hwidth : g.width = h.width) (hheight : g.height = h.height)
    (hcell : ∀ k < g.size, g.cell k = h.cell k) : g = h := by
  obtain ⟨width, height, cells⟩ := g
  obtain ⟨width', height', cells'⟩ := h
  obtain rfl : width = width' := hwidth
  obtain rfl : height = height' := hheight
  congr 1
  apply Vector.ext
  intro k hk
  have hsame := hcell k hk
  simpa only [cell, Vector.getElem?_eq_getElem hk, Option.getD_some] using hsame

theorem inBounds_iff {g : Grid} {x y : Int} :
    g.inBounds x y = true ↔ 0 ≤ x ∧ x < g.width ∧ 0 ≤ y ∧ y < g.height := by
  simp [inBounds, and_assoc]

theorem index_lt {g : Grid} {x y : Nat} (hx : x < g.width) (hy : y < g.height) :
    g.index x y < g.size := by
  calc
    y * g.width + x < y * g.width + g.width := by omega
    _ = (y + 1) * g.width := by ring
    _ ≤ g.height * g.width := Nat.mul_le_mul_right _ hy
    _ = g.width * g.height := Nat.mul_comm _ _

theorem index_lt_of_inBounds {g : Grid} {x y : Int} (h : g.inBounds x y = true) :
    g.index x.toNat y.toNat < g.size := by
  obtain ⟨hx, hx', hy, hy'⟩ := inBounds_iff.mp h
  exact index_lt (by omega) (by omega)

theorem index_inj {g : Grid} {x y x' y' : Nat} (hx : x < g.width) (hx' : x' < g.width)
    (h : g.index x y = g.index x' y') : x = x' ∧ y = y' := by
  have hw : 0 < g.width := by omega
  have hmod : (y * g.width + x) % g.width = (y' * g.width + x') % g.width := congrArg (· % g.width) h
  have hdiv : (y * g.width + x) / g.width = (y' * g.width + x') / g.width := congrArg (· / g.width) h
  rw [Nat.mul_comm y, Nat.mul_comm y', Nat.mul_add_mod, Nat.mul_add_mod, Nat.mod_eq_of_lt hx,
    Nat.mod_eq_of_lt hx'] at hmod
  rw [Nat.mul_comm y, Nat.mul_comm y', Nat.mul_add_div hw, Nat.mul_add_div hw,
    Nat.div_eq_of_lt hx, Nat.div_eq_of_lt hx'] at hdiv
  exact ⟨hmod, by omega⟩

end Grid

namespace Stamps

variable {n : Nat}

theorem isStamped_stamp (s : Stamps n) {i : Nat} (hi : i < n) (j : Nat) :
    (s.stamp i).isStamped j = (decide (i = j) || s.isStamped j) := by
  unfold stamp
  split
  · next h =>
    by_cases hij : i = j
    · subst hij
      simp [h]
    · simp [hij]
  · next h =>
    by_cases hij : i = j
    · subst hij
      simp [isStamped, hi]
    · simp [isStamped, hij, Vector.getElem?_setIfInBounds_ne hij]

theorem isStamped_stamp_of_ne (s : Stamps n) {i j : Nat} (h : i ≠ j) :
    (s.stamp i).isStamped j = s.isStamped j := by
  unfold stamp
  split
  · rfl
  · simp [isStamped, Vector.getElem?_setIfInBounds_ne h]

end Stamps

namespace Chunks

/-- The maps differ in activity, checksums, redraw marks and settings only. -/
def SameStamps (c d : Chunks) : Prop :=
  ∃ active sleep checksums dirty sleepingEnabled woke slept,
    d = { c with active, sleep, checksums, dirty, sleepingEnabled, woke, slept }

namespace SameStamps

variable {c d e : Chunks}

theorem refl (c : Chunks) : SameStamps c c := ⟨_, _, _, _, _, _, _, rfl⟩

theorem trans (h : SameStamps c d) (h' : SameStamps d e) : SameStamps c e := by
  obtain ⟨_, _, _, _, _, _, _, rfl⟩ := h
  obtain ⟨_, _, _, _, _, _, _, rfl⟩ := h'
  exact ⟨_, _, _, _, _, _, _, rfl⟩

theorem width (h : SameStamps c d) : d.width = c.width := by
  obtain ⟨_, _, _, _, _, _, _, rfl⟩ := h
  rfl

theorem height (h : SameStamps c d) : d.height = c.height := by
  obtain ⟨_, _, _, _, _, _, _, rfl⟩ := h
  rfl

theorem isStamped (h : SameStamps c d) (i : Nat) : d.isStamped i = c.isStamped i := by
  obtain ⟨_, _, _, _, _, _, _, rfl⟩ := h
  rfl

theorem foldl {α : Type} {f : Chunks → α → Chunks} (hf : ∀ c x, SameStamps c (f c x)) :
    ∀ (xs : List α) (c : Chunks), SameStamps c (xs.foldl f c)
  | [], c => refl c
  | x :: xs, c => (hf c x).trans (foldl hf xs (f c x))

end SameStamps

theorem sameStamps_wake (c : Chunks) (i : Nat) : SameStamps c (c.wake i) := by
  unfold wake
  split_ifs
  · exact ⟨_, _, _, _, _, _, _, rfl⟩
  · exact ⟨_, _, _, _, _, _, _, rfl⟩
  · exact .refl c

theorem sameStamps_touch (c : Chunks) (i : Nat) : SameStamps c (c.touch i) :=
  (sameStamps_wake c i).trans ⟨_, _, _, _, _, _, _, rfl⟩

theorem sameStamps_wakeAll (c : Chunks) : SameStamps c c.wakeAll :=
  (SameStamps.foldl sameStamps_wake _ c).trans ⟨_, _, _, _, _, _, _, rfl⟩

theorem sameStamps_wakeDisc (c : Chunks) (cx cy radius : Int32) :
    SameStamps c (c.wakeDisc cx cy radius) := by
  simp only [wakeDisc]
  split_ifs
  · exact .refl c
  · apply SameStamps.foldl
    intro c ky
    apply SameStamps.foldl
    intro c kx
    split_ifs
    · exact sameStamps_touch c _
    · exact .refl c

theorem sameStamps_setSleepingEnabled (c : Chunks) (enabled : Bool) :
    SameStamps c (c.setSleepingEnabled enabled) := by
  have h : SameStamps c { c with sleepingEnabled := enabled } := ⟨_, _, _, _, _, _, _, rfl⟩
  unfold setSleepingEnabled
  split_ifs
  · exact h
  · exact h.trans (sameStamps_wakeAll _)

theorem sameStamps_noteChange (c : Chunks) (i : Nat) (sum : UInt32) :
    SameStamps c (c.noteChange i sum) :=
  SameStamps.trans ⟨_, _, _, _, _, _, _, rfl⟩ (SameStamps.foldl sameStamps_wake _ _)

theorem sameStamps_noteQuiet (c : Chunks) (keepsAwake : Nat → Bool) (i : Nat) :
    SameStamps c (c.noteQuiet keepsAwake i) := by
  simp only [noteQuiet]
  split_ifs <;> exact ⟨_, _, _, _, _, _, _, rfl⟩

theorem sameStamps_updateActivity (c : Chunks) (g : Grid) (keepsAwake : MaterialId → Bool) :
    SameStamps c (c.updateActivity g keepsAwake) := by
  apply SameStamps.foldl
  rintro c ⟨i, sum⟩
  simp only [reconcile]
  split_ifs
  · exact sameStamps_noteChange c i sum
  · exact sameStamps_noteQuiet c _ i

end Chunks

theorem Random.below_lt (r : Random) {n : Nat} (hn : 0 < n) : (r.below n).1 < n := by
  rw [below, Nat.div_lt_iff_lt_mul (by decide), Nat.mul_comm n]
  exact Nat.mul_lt_mul_of_pos_right r.next.1.toNat_lt hn

namespace Scene

theorem below_lt (s : Scene) {n : Nat} (hn : 0 < n) : (s.below n).1 < n := s.random.below_lt hn

@[simp] theorem put_grid (s : Scene) (i : Nat) (id : MaterialId) :
    (s.put i id).grid = s.grid.set i id := rfl

@[simp] theorem put_trace (s : Scene) (i : Nat) (id : MaterialId) :
    (s.put i id).trace = s.trace := rfl

theorem put_chunks (s : Scene) (i : Nat) (id : MaterialId) :
    s.chunks.SameStamps (s.put i id).chunks :=
  Chunks.sameStamps_touch s.chunks _

@[simp] theorem put_isStamped (s : Scene) (i : Nat) (id : MaterialId) (j : Nat) :
    (s.put i id).isStamped j = s.isStamped j :=
  (put_chunks s i id).isStamped j

theorem stamp_isStamped_of_ne (s : Scene) {i j : Nat} (h : i ≠ j) :
    (s.stamp i).isStamped j = s.isStamped j :=
  Stamps.isStamped_stamp_of_ne s.chunks.stamps h

theorem stampMove_isStamped_of_ne (s : Scene) (r : CompiledRule) {source target j : Nat}
    (hs : source ≠ j) (ht : target ≠ j) :
    (s.stampMove r source target).isStamped j = s.isStamped j := by
  simp only [stampMove]
  split_ifs <;> simp [stamp_isStamped_of_ne, hs, ht]

@[simp] theorem stampMove_grid (s : Scene) (r : CompiledRule) (source target : Nat) :
    (s.stampMove r source target).grid = s.grid := by
  simp only [stampMove]
  split_ifs <;> rfl

@[simp] theorem stampMove_pending (s : Scene) (r : CompiledRule) (source target : Nat) :
    (s.stampMove r source target).pending = s.pending := by
  simp only [stampMove]
  split_ifs <;> rfl

@[simp] theorem stampMove_trace (s : Scene) (r : CompiledRule) (source target : Nat) :
    (s.stampMove r source target).trace = s.trace := by
  simp only [stampMove]
  split_ifs <;> rfl

theorem exchange_chunks (s : Scene) (commit : Commit) (source target : Nat) :
    s.chunks.SameStamps (s.exchange commit source target).chunks := by
  cases commit with
  | immediate => exact (put_chunks s _ _).trans (put_chunks _ _ _)
  | endOfPass => exact .refl _
  | endOfTick => exact .refl _

theorem write_chunks (s : Scene) (commit : Commit) (i : Nat) (id : MaterialId) :
    s.chunks.SameStamps (s.write commit i id).chunks := by
  cases commit with
  | immediate => exact put_chunks s _ _
  | endOfPass => exact .refl _
  | endOfTick => exact .refl _

@[simp] theorem move_grid (s : Scene) (r : CompiledRule) (source target : Nat) :
    (s.move r source target).grid = (s.exchange r.commit source target).grid :=
  stampMove_grid _ r source target

@[simp] theorem move_pending (s : Scene) (r : CompiledRule) (source target : Nat) :
    (s.move r source target).pending = (s.exchange r.commit source target).pending :=
  stampMove_pending _ r source target

theorem exchange_cell_of_ne (s : Scene) (commit : Commit) {source target j : Nat}
    (hs : source ≠ j) (ht : target ≠ j) :
    (s.exchange commit source target).grid.cell j = s.grid.cell j := by
  cases commit with
  | immediate => simp [exchange, Grid.cell_set_of_ne, hs, ht]
  | endOfPass => rfl
  | endOfTick => rfl

theorem write_cell_of_ne (s : Scene) (commit : Commit) {i j : Nat} (h : i ≠ j) (id : MaterialId) :
    (s.write commit i id).grid.cell j = s.grid.cell j := by
  cases commit with
  | immediate => exact Grid.cell_set_of_ne s.grid h id
  | endOfPass => rfl
  | endOfTick => rfl

theorem move_isStamped_of_ne (s : Scene) (r : CompiledRule) {source target j : Nat}
    (hs : source ≠ j) (ht : target ≠ j) :
    (s.move r source target).isStamped j = s.isStamped j :=
  (stampMove_isStamped_of_ne _ r hs ht).trans ((exchange_chunks s _ _ _).isStamped j)

def SameSize (s t : Scene) : Prop := t.grid.width = s.grid.width ∧ t.grid.height = s.grid.height

theorem SameSize.size {s t : Scene} (h : SameSize s t) : t.grid.size = s.grid.size := by
  simp only [Grid.size, h.1, h.2]

theorem SameSize.index {s t : Scene} (h : SameSize s t) (x y : Nat) :
    t.grid.index x y = s.grid.index x y := by
  simp only [Grid.index, h.1]

theorem sameSize_exchange (s : Scene) (commit : Commit) (source target : Nat) :
    SameSize s (s.exchange commit source target) := by
  cases commit <;> exact ⟨rfl, rfl⟩

theorem sameSize_write (s : Scene) (commit : Commit) (i : Nat) (id : MaterialId) :
    SameSize s (s.write commit i id) := by
  cases commit <;> exact ⟨rfl, rfl⟩

theorem sameSize_move (s : Scene) (r : CompiledRule) (source target : Nat) :
    SameSize s (s.move r source target) := by
  have h := sameSize_exchange s r.commit source target
  simpa only [SameSize, move_grid] using h

end Scene

end Sandfall
