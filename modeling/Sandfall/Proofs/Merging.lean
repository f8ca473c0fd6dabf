import Sandfall.Proofs.Rects

/-! How the rectangles lie. The runs of a row have gaps between them, so no two of them touch. The
runs come row by row, so whatever continues a rectangle stands behind all that it has taken in
already, and one look through the rest finds everything it can take in. The last part shows the
joining as it is done in place, by two indices into one list: it ends on every list, with the
rectangles of `join`. -/

namespace Sandfall.Chunks

namespace Rect

def top (r : Rect) : Rect := { r with ch := 1 }

/-- No chunk lies in both. -/
def Apart (a b : Rect) : Prop := ∀ cx cy, a.Holds cx cy → ¬b.Holds cx cy

/-- `a` begins on a higher row, or on the same row further left. -/
def Precedes (a b : Rect) : Prop := a.cy < b.cy ∨ a.cy = b.cy ∧ a.cx < b.cx

/-- `a` begins on a higher row, or on the same row with a gap before `b`. -/
def Clears (a b : Rect) : Prop := a.cy < b.cy ∨ a.cy = b.cy ∧ a.cx + a.cw < b.cx

/-- The rectangles have the same columns, and `b` begins below the last row of `a`. -/
def Above (a b : Rect) : Prop := a.cx = b.cx ∧ a.cw = b.cw ∧ a.cy + a.ch = b.cy

/-- The rectangles have the same rows, and `b` begins behind the last column of `a`. -/
def Beside (a b : Rect) : Prop := a.cy = b.cy ∧ a.ch = b.ch ∧ a.cx + a.cw = b.cx

/-- The rectangle holds a chunk, and all it holds are chunks of the map. -/
structure Inside (r : Rect) (c : Chunks) : Prop where
  wide : 0 < r.cw
  high : 0 < r.ch
  right : r.cx + r.cw ≤ c.across
  bottom : r.cy + r.ch ≤ c.down

variable {a b : Rect}

theorem continues_iff : a.continues b = true ↔ a.Above b := by
  simp only [continues, Bool.and_eq_true, decide_eq_true_iff, Above]
  omega

theorem Clears.precedes (h : a.Clears b) : a.Precedes b := by
  unfold Clears Precedes at *
  omega

theorem Clears.not_beside (h : a.Clears b) : ¬a.Beside b := by
  unfold Clears Beside at *
  omega

theorem Clears.not_beside_symm (h : a.Clears b) : ¬b.Beside a := by
  unfold Clears Beside at *
  omega

end Rect

/-! The runs. -/

/-- Runs of the row `y` from the column `x` on, from left to right and with gaps. -/
structure InRow (y x : Nat) (rs : List Rect) : Prop where
  run : ∀ r ∈ rs, r.top = r ∧ r.cy = y ∧ 0 < r.cw ∧ x ≤ r.cx
  clear : rs.Pairwise Rect.Clears

theorem inRow_nil (y x : Nat) : InRow y x [] := ⟨by simp, .nil⟩

theorem InRow.mono {y x x' : Nat} {rs : List Rect} (h : InRow y x rs) (hle : x' ≤ x) :
    InRow y x' rs := by
  refine ⟨fun r hr => ?_, h.clear⟩
  obtain ⟨htop, hrow, hwide, hleft⟩ := h.run r hr
  exact ⟨htop, hrow, hwide, hle.trans hleft⟩

theorem InRow.cons {y x first : Nat} {rs : List Rect} (hfirst : first < x)
    (h : InRow y (x + 1) rs) : InRow y first (⟨first, y, x - first, 1⟩ :: rs) := by
  constructor
  · refine List.forall_mem_cons.mpr ⟨⟨rfl, rfl, Nat.sub_pos_of_lt hfirst, Nat.le_refl _⟩, ?_⟩
    exact (h.mono (by omega)).run
  · refine List.pairwise_cons.mpr ⟨fun r hr => ?_, h.clear⟩
    obtain ⟨-, hrow, -, hleft⟩ := h.run r hr
    exact .inr ⟨hrow.symm, by simp only; omega⟩

theorem inRow_runsFrom (marked : Nat → Bool) (y columns x : Nat) (opened : Option Nat)
    (hopened : ∀ first ∈ opened, first < x) :
    InRow y (opened.getD x) (runsFrom marked y opened x columns) := by
  induction columns generalizing x opened with
  | zero =>
    unfold runsFrom
    rcases opened with _ | first
    · exact inRow_nil y x
    · exact .cons (hopened first rfl) (inRow_nil y _)
  | succ columns ih =>
    unfold runsFrom
    -- the column is marked or not, and a run is open or not
    rcases marked x with _ | _ <;> rcases opened with _ | first
    · exact (ih (x + 1) none (by simp)).mono (Nat.le_succ x)
    · exact .cons (hopened first rfl) (ih (x + 1) none (by simp))
    · exact ih (x + 1) (some x) (by simp)
    · have hfirst : first < x := hopened first rfl
      exact ih (x + 1) (some first) (by simpa using Nat.le_of_lt hfirst)

def runs (c : Chunks) : List Rect := (List.range c.down).flatMap c.rowRuns

theorem inRow_rowRuns (c : Chunks) (cy : Nat) : InRow cy 0 (c.rowRuns cy) :=
  inRow_runsFrom _ cy c.across 0 none (by simp)

theorem clears_runs (c : Chunks) : c.runs.Pairwise Rect.Clears := by
  rw [runs, List.pairwise_flatMap]
  refine ⟨fun cy _ => (inRow_rowRuns c cy).clear, ?_⟩
  refine List.pairwise_lt_range.imp fun {cy cy'} hlt a ha b hb => ?_
  obtain ⟨-, ha, -⟩ := (inRow_rowRuns c cy).run a ha
  obtain ⟨-, hb, -⟩ := (inRow_rowRuns c cy').run b hb
  exact .inl (by omega)

theorem mem_runs {c : Chunks} {r : Rect} (hr : r ∈ c.runs) : r.top = r ∧ 0 < r.cw := by
  obtain ⟨cy, -, hr⟩ := List.mem_flatMap.mp hr
  obtain ⟨htop, -, hwide, -⟩ := (inRow_rowRuns c cy).run r hr
  exact ⟨htop, hwide⟩

theorem apart_runs (c : Chunks) : c.runs.Pairwise Rect.Apart := by
  refine (clears_runs c).imp_of_mem fun {a b} ha hb hclear cx cy hina hinb => ?_
  have ha : a.ch = 1 := by rw [← (mem_runs ha).1]; rfl
  unfold Rect.Holds Rect.Clears at *
  omega

/-! Joining. -/

theorem absorb_fst (a : Rect) (rs : List Rect) :
    ∃ ch, a.ch ≤ ch ∧ (absorb a rs).1 = { a with ch } := by
  induction rs generalizing a with
  | nil => exact ⟨a.ch, Nat.le_refl _, rfl⟩
  | cons b rs ih =>
    unfold absorb
    split_ifs with hcontinues
    · obtain ⟨ch, hle, hgrown⟩ := ih { a with ch := a.ch + b.ch }
      exact ⟨ch, Nat.le_of_add_right_le hle, hgrown⟩
    · exact ih a

theorem absorb_sublist (a : Rect) (rs : List Rect) : (absorb a rs).2.Sublist rs := by
  induction rs generalizing a with
  | nil => exact .slnil
  | cons b rs ih =>
    unfold absorb
    split_ifs with hcontinues
    · exact (ih _).cons b
    · exact (ih a).cons_cons b

/-- A rectangle takes in nothing, or first of all something that continues it. -/
theorem absorb_cases (a : Rect) (rs : List Rect) :
    (absorb a rs).1 = a ∨ ∃ b ∈ rs, a.Above b ∧ a.ch + b.ch ≤ (absorb a rs).1.ch := by
  induction rs with
  | nil => exact .inl rfl
  | cons b rs ih =>
    unfold absorb
    split_ifs with hcontinues
    · obtain ⟨ch, hle, hgrown⟩ := absorb_fst { a with ch := a.ch + b.ch } rs
      refine .inr ⟨b, List.mem_cons_self .., Rect.continues_iff.mp hcontinues, ?_⟩
      rw [hgrown]
      exact hle
    · rcases ih with hsame | ⟨b', hb', habove, hle⟩
      · exact .inl hsame
      · exact .inr ⟨b', List.mem_cons_of_mem _ hb', habove, hle⟩

/-- If the rest comes row by row, nothing of what is left continues what has grown. -/
theorem not_above_absorb {a : Rect} {rs : List Rect} (hhigh : ∀ r ∈ rs, 0 < r.ch)
    (hrows : rs.Pairwise fun r r' => r.cy ≤ r'.cy) :
    ∀ r ∈ (absorb a rs).2, ¬(absorb a rs).1.Above r := by
  induction rs generalizing a with
  | nil => exact fun r hr => absurd hr List.not_mem_nil
  | cons b rs ih =>
    obtain ⟨hb, hhigh⟩ := List.forall_mem_cons.mp hhigh
    obtain ⟨hbelow, hrows⟩ := List.pairwise_cons.mp hrows
    unfold absorb
    split_ifs with hcontinues
    · exact ih hhigh hrows
    · refine List.forall_mem_cons.mpr ⟨fun habove => ?_, ih hhigh hrows⟩
      rcases absorb_cases a rs with hsame | ⟨b', hb', habove', hle⟩
      · rw [hsame] at habove
        exact hcontinues (Rect.continues_iff.mpr habove)
      · -- what it has taken in lies at the height of `b` or further down
        have hrow := hbelow b' hb'
        have hhigh' := hhigh b' hb'
        obtain ⟨ch, -, hgrown⟩ := absorb_fst a rs
        rw [hgrown] at habove hle
        unfold Rect.Above at habove habove'
        simp only at habove hle
        omega

theorem apart_absorb {a : Rect} {rs : List Rect} (h : (a :: rs).Pairwise Rect.Apart) :
    ((absorb a rs).1 :: (absorb a rs).2).Pairwise Rect.Apart := by
  induction rs generalizing a with
  | nil => exact h
  | cons b rs ih =>
    obtain ⟨ha, hrest⟩ := List.pairwise_cons.mp h
    obtain ⟨hb, hrs⟩ := List.pairwise_cons.mp hrest
    obtain ⟨hab, ha⟩ := List.forall_mem_cons.mp ha
    unfold absorb
    split_ifs with hcontinues
    · refine ih (List.pairwise_cons.mpr ⟨fun r hr cx cy hin hinr => ?_, hrs⟩)
      rcases (Rect.holds_joined hcontinues).mp hin with hin | hin
      · exact ha r hr cx cy hin hinr
      · exact hb r hr cx cy hin hinr
    · obtain ⟨hgrown, hleft⟩ := List.pairwise_cons.mp (ih (List.pairwise_cons.mpr ⟨ha, hrs⟩))
      -- all that the grown rectangle holds was held by those it is made of
      have hgrownb : (absorb a rs).1.Apart b := by
        intro cx cy hin hinb
        have hcovered : Covered (a :: rs) cx cy :=
          (covered_absorb a rs).mp ⟨_, List.mem_cons_self .., hin⟩
        rcases covered_cons.mp hcovered with hina | ⟨r, hr, hinr⟩
        · exact hab cx cy hina hinb
        · exact hb r hr cx cy hinb hinr
      have hbleft : ∀ r ∈ (absorb a rs).2, b.Apart r :=
        fun r hr => hb r ((absorb_sublist a rs).subset hr)
      exact List.pairwise_cons.mpr ⟨List.forall_mem_cons.mpr ⟨hgrownb, hgrown⟩,
        List.pairwise_cons.mpr ⟨hbleft, hleft⟩⟩

theorem top_join (rs : List Rect) : ((join rs).map Rect.top).Sublist (rs.map Rect.top) := by
  induction rs using join.induct with
  | case1 => simp [join]
  | case2 a rs _ ih =>
    obtain ⟨ch, -, hgrown⟩ := absorb_fst a rs
    have htop : (absorb a rs).1.top = a.top := by rw [hgrown]; rfl
    rw [join, List.map_cons, List.map_cons, htop]
    exact (ih.trans ((absorb_sublist a rs).map _)).cons_cons _

theorem high_join {rs : List Rect} (h : ∀ r ∈ rs, 0 < r.ch) : ∀ r ∈ join rs, 0 < r.ch := by
  induction rs using join.induct with
  | case1 => simp [join]
  | case2 a rs _ ih =>
    obtain ⟨ha, hrs⟩ := List.forall_mem_cons.mp h
    obtain ⟨ch, hle, hgrown⟩ := absorb_fst a rs
    rw [join]
    refine List.forall_mem_cons.mpr ⟨?_, ih fun r hr => hrs r ((absorb_sublist a rs).subset hr)⟩
    rw [hgrown]
    exact Nat.lt_of_lt_of_le ha hle

theorem apart_join {rs : List Rect} (h : rs.Pairwise Rect.Apart) :
    (join rs).Pairwise Rect.Apart := by
  induction rs using join.induct with
  | case1 => simp [join]
  | case2 a rs _ ih =>
    obtain ⟨hgrown, hleft⟩ := List.pairwise_cons.mp (apart_absorb h)
    rw [join]
    refine List.pairwise_cons.mpr ⟨fun r hr cx cy hin hinr => ?_, ih hleft⟩
    obtain ⟨r', hr', hinr'⟩ := (covered_join _).mp ⟨r, hr, hinr⟩
    exact hgrown r' hr' cx cy hin hinr'

/-- After joining what comes row by row, none continues an earlier one. -/
theorem not_above_join {rs : List Rect} (hhigh : ∀ r ∈ rs, 0 < r.ch)
    (hrows : rs.Pairwise fun r r' => r.cy ≤ r'.cy) :
    (join rs).Pairwise fun a b => ¬a.Above b := by
  induction rs using join.induct with
  | case1 => simp [join]
  | case2 a rs _ ih =>
    obtain ⟨-, hhigh⟩ := List.forall_mem_cons.mp hhigh
    obtain ⟨-, hrows⟩ := List.pairwise_cons.mp hrows
    have hleft := absorb_sublist a rs
    rw [join]
    refine List.pairwise_cons.mpr ⟨fun r hr habove => ?_,
      ih (fun r hr => hhigh r (hleft.subset hr)) (hrows.sublist hleft)⟩
    -- only where a rectangle begins matters, and it begins as one of those left did
    obtain ⟨r', hr', htop⟩ := List.mem_map.mp ((top_join _).subset (List.mem_map_of_mem hr))
    refine not_above_absorb hhigh hrows r' hr' ?_
    unfold Rect.top at htop
    unfold Rect.Above at habove ⊢
    grind

/-! The joining in place. -/

/-- The list on which the joining works, and the two places that it compares next. -/
structure Merging where
  rects : List Rect
  i : Nat
  j : Nat

namespace Merging

/-- One comparison; none if there is nothing left to compare. -/
def next? (m : Merging) : Option Merging :=
  match m.rects[m.i]?, m.rects[m.j]? with
  | none, _ => none
  | some _, none => some { m with i := m.i + 1, j := m.i + 2 }
  | some a, some b =>
    if a.continues b then
      some { m with rects := (m.rects.set m.i { a with ch := a.ch + b.ch }).eraseIdx m.j }
    else some { m with j := m.j + 1 }

/-- After finitely many comparisons there is nothing left to compare, and the list is `rs`. -/
inductive Ends : Merging → List Rect → Prop
  | done {m : Merging} : m.next? = none → Ends m m.rects
  | next {m n : Merging} {rs : List Rect} : m.next? = some n → Ends n rs → Ends m rs

def start (rs : List Rect) : Merging := ⟨rs, 0, 1⟩

theorem next?_eq (before after : List Rect) (b : Rect) {i : Nat} {a : Rect}
    (hi : before[i]? = some a) : next? ⟨before ++ b :: after, i, before.length⟩ = some
      (if a.continues b then ⟨before.set i { a with ch := a.ch + b.ch } ++ after, i, before.length⟩
      else ⟨before ++ b :: after, i, before.length + 1⟩) := by
  obtain ⟨hlt, -⟩ := List.getElem?_eq_some_iff.mp hi
  have hfirst : (before ++ b :: after)[i]? = some a := by rw [List.getElem?_append_left hlt, hi]
  have hsecond : (before ++ b :: after)[before.length]? = some b := by simp
  have herase : (before.set i { a with ch := a.ch + b.ch } ++ b :: after).eraseIdx before.length
      = before.set i { a with ch := a.ch + b.ch } ++ after := by
    rw [List.eraseIdx_append_of_length_le (by simp)]
    simp
  simp only [next?, hfirst, hsecond, List.set_append_left _ _ hlt, herase]
  split_ifs <;> rfl

/-- A rectangle that has been compared with all behind it stays as it is. -/
theorem ends_onward {done rest rs : List Rect} {a : Rect}
    (h : Ends ⟨done ++ a :: rest, done.length + 1, done.length + 2⟩ rs) :
    Ends ⟨done ++ a :: rest, done.length, (done ++ a :: rest).length⟩ rs := by
  refine .next ?_ h
  simp [next?]

theorem ends_absorb (done passed rest : List Rect) (a : Rect) {rs : List Rect}
    (h : Ends ⟨done ++ (absorb a rest).1 :: (passed ++ (absorb a rest).2), done.length + 1,
      done.length + 2⟩ rs) :
    Ends ⟨done ++ a :: passed ++ rest, done.length, (done ++ a :: passed).length⟩ rs := by
  induction rest generalizing a passed with
  | nil =>
    simp only [absorb, List.append_nil] at h ⊢
    exact ends_onward h
  | cons b rest ih =>
    have hfirst : (done ++ a :: passed)[done.length]? = some a := by simp
    have hnext := next?_eq (done ++ a :: passed) rest b hfirst
    unfold absorb at h
    split_ifs at h with hcontinues
    · rw [if_pos hcontinues] at hnext
      refine .next hnext ?_
      simpa using ih passed _ h
    · rw [if_neg hcontinues] at hnext
      have hrest := ih (passed ++ [b]) a (by simpa using h)
      refine .next hnext ?_
      simpa [Nat.add_assoc] using hrest

/-- The joining ends on every list, however its rectangles lie. -/
theorem ends_join (done rs : List Rect) :
    Ends ⟨done ++ rs, done.length, done.length + 1⟩ (done ++ join rs) := by
  induction rs using join.induct generalizing done with
  | case1 =>
    rw [join, List.append_nil]
    exact .done (by simp [next?])
  | case2 a rs _ ih =>
    have hrest := ih (done ++ [(absorb a rs).1])
    have habsorb := ends_absorb done [] rs a (by simpa using hrest)
    rw [join]
    simpa using habsorb

end Merging

/-! The rectangles of a map. -/

theorem top_dirtyRects (c : Chunks) : (c.dirtyRects.map Rect.top).Sublist c.runs := by
  have htop : c.runs.map Rect.top = c.runs :=
    (List.map_congr_left fun r hr => (mem_runs hr).1).trans (List.map_id _)
  have hjoin := top_join c.runs
  rwa [htop] at hjoin

theorem clears_dirtyRects (c : Chunks) : c.dirtyRects.Pairwise Rect.Clears := by
  have htops := (clears_runs c).sublist (top_dirtyRects c)
  rwa [List.pairwise_map] at htops

theorem high_runs {c : Chunks} {r : Rect} (hr : r ∈ c.runs) : 0 < r.ch := by
  rw [← (mem_runs hr).1]
  exact Nat.one_pos

theorem inside_dirtyRects {c : Chunks} {r : Rect} (hr : r ∈ c.dirtyRects) : r.Inside c := by
  have hwide : 0 < r.cw := (mem_runs ((top_dirtyRects c).subset (List.mem_map_of_mem hr))).2
  have hhigh : 0 < r.ch := high_join (fun _ => high_runs) r hr
  -- its last chunk is marked, so it is one of the map
  have hlast : r.Holds (r.cx + r.cw - 1) (r.cy + r.ch - 1) := by
    unfold Rect.Holds
    omega
  obtain ⟨hright, hbottom, -⟩ := (covered_dirtyRects c).mp ⟨r, hr, hlast⟩
  exact ⟨hwide, hhigh, by omega, by omega⟩

theorem Rect.Inside.not_above {r : Rect} {c : Chunks} (h : r.Inside c) : ¬r.Above r := by
  have hhigh := h.high
  unfold Rect.Above
  omega

theorem Rect.Inside.not_beside {r : Rect} {c : Chunks} (h : r.Inside c) : ¬r.Beside r := by
  have hwide := h.wide
  unfold Rect.Beside
  omega

theorem not_joinable_dirtyRects (c : Chunks) :
    ∀ a ∈ c.dirtyRects, ∀ b ∈ c.dirtyRects, ¬a.Above b ∧ ¬a.Beside b := by
  have hclear := clears_dirtyRects c
  have hrows : c.runs.Pairwise fun a b => a.cy ≤ b.cy :=
    (clears_runs c).imp fun h => h.elim Nat.le_of_lt fun heq => Nat.le_of_eq heq.1
  have habove : c.dirtyRects.Pairwise fun a b => ¬a.Above b :=
    not_above_join (fun _ => high_runs) hrows
  -- of two rectangles the later one begins no higher, so it is not above the earlier one
  have hback : c.dirtyRects.Pairwise fun a b => ¬b.Above a ∧ ¬b.Beside a := by
    refine hclear.imp_of_mem fun {a b} _ hb hab => ⟨fun hba => ?_, hab.not_beside_symm⟩
    have hhigh := (inside_dirtyRects hb).high
    unfold Rect.Above Rect.Clears at *
    omega
  have hself : ∀ r ∈ c.dirtyRects, ¬r.Above r ∧ ¬r.Beside r := fun r hr =>
    ⟨(inside_dirtyRects hr).not_above, (inside_dirtyRects hr).not_beside⟩
  exact List.Pairwise.forall_of_forall_of_flip hself
    (habove.and (hclear.imp Rect.Clears.not_beside)) hback

/-- Whatever is marked, behind the last chunk too: the rectangles hold the marked chunks of the map,
each of them once. They come in reading order, and no two can be joined, neither downwards nor
sideways. They are what the joining in place ends with, and it ends on every list. -/
theorem dirty_rects_tile_the_marked_chunks (c : Chunks) :
    (∀ r ∈ c.dirtyRects, r.Inside c) ∧
      c.dirtyRects.Pairwise Rect.Apart ∧
      (∀ cx cy, Covered c.dirtyRects cx cy ↔
        cx < c.across ∧ cy < c.down ∧ c.isDirty (c.indexOf cx cy) = true) ∧
      c.dirtyRects.Pairwise Rect.Precedes ∧
      (∀ a ∈ c.dirtyRects, ∀ b ∈ c.dirtyRects, ¬a.Above b ∧ ¬a.Beside b) ∧
      Merging.Ends (.start c.runs) c.dirtyRects ∧
      ∀ rs, ∃ joined, Merging.Ends (.start rs) joined := by
  refine ⟨fun r => inside_dirtyRects, apart_join (apart_runs c), fun cx cy => covered_dirtyRects c,
    (clears_dirtyRects c).imp Rect.Clears.precedes, not_joinable_dirtyRects c, ?_, fun rs => ?_⟩
  · exact Merging.ends_join [] c.runs
  · exact ⟨_, Merging.ends_join [] rs⟩

end Sandfall.Chunks
