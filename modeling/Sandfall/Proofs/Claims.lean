import Sandfall.Proofs.Sound

/-! Claimed cells. A move claims its target if its rule is stamped or puts it off, and its source
too if it is put off. The stamps of a pass are the cells claimed so far, and nothing moves from or to
a stamped cell, so nothing moves from or to a claimed one. -/

namespace Sandfall

namespace Deed

/-- The deed is a move that claims the cell for the rest of its pass. -/
def Claims (i : Nat) : Deed → Prop
  | .move r source target =>
    (i = target ∧ (r.stamp = true ∨ r.commit ≠ .immediate)) ∨ (i = source ∧ r.commit ≠ .immediate)
  | _ => False

/-- The deed is a move that starts from the cell or lands on it. -/
def Moves (i : Nat) : Deed → Prop
  | .move _ source target => i = source ∨ i = target
  | _ => False

/-- Nothing moves from or to a cell that an earlier deed has claimed. -/
def Respectful (ds : List Deed) : Prop :=
  ds.Pairwise fun d e => ∀ i, d.Claims i → ¬ e.Moves i

theorem Respectful.snoc {ds : List Deed} {e : Deed} (h : Respectful ds)
    (he : ∀ d ∈ ds, ∀ i, d.Claims i → ¬ e.Moves i) : Respectful (ds ++ [e]) := by
  refine List.pairwise_append.mpr ⟨h, List.pairwise_singleton _ _, ?_⟩
  intro d hd e' he'
  rw [List.mem_singleton] at he'
  rw [he']
  exact he d hd

end Deed

namespace Scene

theorem Sound.stamp_isStamped {s : Scene} (h : s.Sound) {i : Nat} (hi : i < s.grid.size)
    (j : Nat) : (s.stamp i).isStamped j = true ↔ i = j ∨ s.isStamped j = true := by
  have hstamp := Stamps.isStamped_stamp s.chunks.stamps (h.cells_eq ▸ hi) j
  change (s.chunks.stamps.stamp i).isStamped j = true ↔ i = j ∨ s.chunks.stamps.isStamped j = true
  rw [hstamp, Bool.or_eq_true, decide_eq_true_eq]

theorem Sound.stampMove_isStamped {s : Scene} (h : s.Sound) (r : CompiledRule)
    {source target : Nat} (hs : source < s.grid.size) (ht : target < s.grid.size) (j : Nat) :
    (s.stampMove r source target).isStamped j = true ↔
      s.isStamped j = true ∨ (Deed.move r source target).Claims j := by
  have htarget := h.stamp_isStamped ht j
  have hboth := (h.stamp ht).stamp_isStamped hs j
  rw [htarget] at hboth
  simp only [Scene.stampMove, Deed.Claims]
  by_cases hdeferred : r.commit = .immediate
  · by_cases hstamp : r.stamp = true
    · simp only [hdeferred, hstamp, ne_eq, not_true_eq_false, decide_false, Bool.or_false, if_true,
        if_false, htarget]
      grind
    · simp [hdeferred, hstamp]
  · simp only [hdeferred, ne_eq, not_false_eq_true, decide_true, Bool.or_true, if_true, hboth]
    grind

theorem Sound.enact_isStamped {s : Scene} (h : s.Sound) {d : Deed} (hd : s.Names d) (j : Nat) :
    (s.enact d).isStamped j = true ↔ s.isStamped j = true ∨ d.Claims j := by
  cases d with
  | place i id => simp [Scene.enact, Deed.Claims]
  | rewrite r i id =>
    have hkeep := (write_chunks s r.commit i id).isStamped j
    simp only [Scene.enact, Deed.Claims, or_false]
    exact Eq.congr_left hkeep
  | move r source target =>
    obtain ⟨hs, ht⟩ := hd
    have hex := h.exchange r.commit hs ht
    have hsize := (sameSize_exchange s r.commit source target).size
    have hkeep := (exchange_chunks s r.commit source target).isStamped j
    rw [← hsize] at hs ht
    have hmove := hex.stampMove_isStamped r hs ht j
    change (s.exchange r.commit source target).isStamped j = s.isStamped j at hkeep
    rw [hkeep] at hmove
    exact hmove

namespace Run

variable {b : RuleBook} {hs : Handlers} {pass : Pass} {s t : Scene} {ds : List Deed}

/-- The stamps at the end of a run are those at its beginning and all cells claimed. -/
theorem isStamped (h : s.Run b hs pass ds t) (hsound : s.Sound) (j : Nat) :
    t.isStamped j = true ↔ s.isStamped j = true ∨ ∃ d ∈ ds, d.Claims j := by
  induction h with
  | nil => simp
  | quiet _ ha ih => rw [ha.isStamped, ih]
  | rule hrun hst _ hd ih =>
    rw [(hrun.sound hsound).enact_isStamped (names_of_byRule hst hd), ih]
    simp [or_and_right, exists_or, or_assoc]
  | @place t ds i id _ _ hrun _ _ _ hi _ _ ih =>
    have hnames : t.Names (.place i id) := hi
    rw [(hrun.sound hsound).enact_isStamped hnames, ih]
    simp [or_and_right, exists_or, or_assoc]

theorem free_of_moves {a : Actor} {r : CompiledRule} {d : Deed} (ha : a.Stands s)
    (hd : d.ByRule s a r) {i : Nat} (hi : d.Moves i) : s.isStamped i = false := by
  cases hd with
  | candidate => exact hi.elim
  | actor => exact hi.elim
  | swap _ hfree =>
    rcases hi with rfl | rfl
    · exact ha.free
    · exact hfree
  | throw _ hfree =>
    rcases hi with rfl | rfl
    · exact ha.free
    · exact hfree
  | pull _ _ hfree hfree' =>
    rcases hi with rfl | rfl
    · exact hfree
    · exact hfree'

theorem respectful (h : s.Run b hs pass ds t) (hsound : s.Sound) : Deed.Respectful ds := by
  induction h with
  | nil => exact .nil
  | quiet _ _ ih => exact ih
  | rule hrun hst _ hd ih =>
    refine ih.snoc ?_
    intro d' hd' i hclaims hmoves
    have hstamped := (hrun.isStamped hsound i).mpr (.inr ⟨d', hd', hclaims⟩)
    rw [free_of_moves hst hd hmoves] at hstamped
    cases hstamped
  | place _ _ _ _ _ _ _ ih => exact ih.snoc fun _ _ _ _ hmoves => hmoves

end Run

end Scene

end Sandfall
