import Mathlib.Tactic
import Sandfall.Chunks.Rects

/-! What the rectangles cover. The runs of a row cover its marked chunks, and to join rectangles
changes nothing of what they cover, so all together they cover the marked chunks and no others. -/

namespace Sandfall.Chunks

def Rect.Holds (r : Rect) (cx cy : Nat) : Prop :=
  r.cx ≤ cx ∧ cx < r.cx + r.cw ∧ r.cy ≤ cy ∧ cy < r.cy + r.ch

/-- The chunk lies in some rectangle. -/
def Covered (rs : List Rect) (cx cy : Nat) : Prop := ∃ r ∈ rs, r.Holds cx cy

variable {cx cy : Nat}

@[simp] theorem covered_nil : ¬Covered [] cx cy := by simp [Covered]

@[simp] theorem covered_cons {r : Rect} {rs : List Rect} :
    Covered (r :: rs) cx cy ↔ r.Holds cx cy ∨ Covered rs cx cy := by
  simp [Covered]

theorem covered_flatMap {α : Type} {xs : List α} {rects : α → List Rect} :
    Covered (xs.flatMap rects) cx cy ↔ ∃ x ∈ xs, Covered (rects x) cx cy := by
  simp only [Covered, List.mem_flatMap]
  grind

/-- The runs of a row cover the run that is open and the marked columns behind it. -/
theorem covered_runsFrom {marked : Nat → Bool} {y : Nat} {opened : Option Nat} {x columns : Nat}
    (hopened : ∀ first ∈ opened, first ≤ x) :
    Covered (runsFrom marked y opened x columns) cx cy ↔
      cy = y ∧ ((∃ first ∈ opened, first ≤ cx ∧ cx < x) ∨
        (x ≤ cx ∧ cx < x + columns ∧ marked cx = true)) := by
  induction columns generalizing opened x with
  | zero =>
    cases opened with
    | none =>
      simp only [runsFrom, covered_nil, false_iff]
      grind
    | some first =>
      simp only [Option.mem_some_iff, forall_eq'] at hopened
      simp only [runsFrom, covered_cons, covered_nil, or_false, Rect.Holds, Option.mem_some_iff,
        exists_eq_left']
      omega
  | succ columns ih =>
    -- the column is marked or not, and a run is open or not
    cases hmarked : marked x with
    | true =>
      cases opened with
      | none =>
        simp only [runsFrom, hmarked]
        rw [ih (by simp)]
        grind
      | some first =>
        have hfirst : first ≤ x := hopened first rfl
        simp only [runsFrom, hmarked]
        rw [ih (by simpa using Nat.le_succ_of_le hfirst)]
        simp only [Option.mem_some_iff, exists_eq_left']
        grind
    | false =>
      cases opened with
      | none =>
        simp only [runsFrom, hmarked]
        rw [ih (by simp)]
        grind
      | some first =>
        simp only [runsFrom, hmarked]
        rw [covered_cons, ih (by simp)]
        simp only [Option.mem_some_iff, exists_eq_left', Rect.Holds]
        grind

/-- A rectangle and what continues it downwards cover what the joined one does. -/
theorem Rect.holds_joined {a b : Rect} (h : a.continues b = true) :
    Rect.Holds { a with ch := a.ch + b.ch } cx cy ↔ a.Holds cx cy ∨ b.Holds cx cy := by
  simp only [continues, Bool.and_eq_true, decide_eq_true_iff] at h
  simp only [Holds]
  omega

theorem covered_absorb (a : Rect) (rs : List Rect) :
    Covered ((absorb a rs).1 :: (absorb a rs).2) cx cy ↔ Covered (a :: rs) cx cy := by
  induction rs generalizing a with
  | nil => rfl
  | cons b rs ih =>
    rw [absorb]
    split_ifs with hcontinues
    · rw [ih, covered_cons, Rect.holds_joined hcontinues, covered_cons, covered_cons, or_assoc]
    · have hrest := ih a
      simp only [covered_cons] at hrest ⊢
      rw [or_left_comm, hrest, or_left_comm]

theorem covered_join (rs : List Rect) : Covered (join rs) cx cy ↔ Covered rs cx cy := by
  induction rs using join.induct with
  | case1 => rw [join]
  | case2 a rs _ ih => rw [join, covered_cons, ih, ← covered_cons, covered_absorb]

theorem covered_dirtyRects (c : Chunks) : Covered c.dirtyRects cx cy ↔
    cx < c.across ∧ cy < c.down ∧ c.isDirty (c.indexOf cx cy) = true := by
  have hrow : ∀ y, Covered (c.rowRuns y) cx cy ↔
      cy = y ∧ cx < c.across ∧ c.isDirty (c.indexOf cx y) = true := by
    intro y
    rw [rowRuns, covered_runsFrom (by simp)]
    simp
  simp only [dirtyRects, covered_join, covered_flatMap, hrow, List.mem_range]
  grind

end Sandfall.Chunks
