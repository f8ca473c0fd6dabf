import Sandfall.Proofs.Sound

/-! Exchanges that land. If none is stale and no two have a cell in common, then in whatever order
they are applied all of them land, and the cells are the same in the end. -/

namespace Sandfall

namespace Write

def cells : Write → List Nat
  | .set i _ => [i.toNat]
  | .exchange source target _ _ => [source.toNat, target.toNat]

/-- The writes have no cell in common. -/
def Apart (v w : Write) : Prop := v.cells.Disjoint w.cells

/-- The cells of an exchange hold what they held when it was decided. -/
def Current (g : Grid) : Write → Prop
  | .set .. => False
  | .exchange source target moving displaced =>
    g.cell source.toNat = moving ∧ g.cell target.toNat = displaced

/-- The cells of an exchange hold what it was to bring. -/
def Landed (g : Grid) : Write → Prop
  | .set .. => False
  | .exchange source target moving displaced =>
    g.cell target.toNat = moving ∧ g.cell source.toNat = displaced

variable {g g' : Grid} {v w : Write}

theorem Apart.symm (h : v.Apart w) : w.Apart v := List.Disjoint.symm h

theorem Current.of_cells (h : w.Current g) (hcells : ∀ i ∈ w.cells, g'.cell i = g.cell i) :
    w.Current g' := by
  cases w with
  | set i id => exact h
  | exchange source target moving displaced =>
    obtain ⟨hsource, htarget⟩ := h
    exact ⟨(hcells _ (by simp [cells])).trans hsource, (hcells _ (by simp [cells])).trans htarget⟩

theorem Landed.of_cells (h : w.Landed g) (hcells : ∀ i ∈ w.cells, g'.cell i = g.cell i) :
    w.Landed g' := by
  cases w with
  | set i id => exact h
  | exchange source target moving displaced =>
    obtain ⟨htarget, hsource⟩ := h
    exact ⟨(hcells _ (by simp [cells])).trans htarget, (hcells _ (by simp [cells])).trans hsource⟩

theorem Landed.cell_eq (h : w.Landed g) (h' : w.Landed g') {i : Nat} (hi : i ∈ w.cells) :
    g'.cell i = g.cell i := by
  cases w with
  | set i id => exact h.elim
  | exchange source target moving displaced =>
    simp only [cells, List.mem_cons, List.not_mem_nil, or_false] at hi
    rcases hi with rfl | rfl
    · exact h'.2.trans h.2.symm
    · exact h'.1.trans h.1.symm

end Write

namespace Scene

variable {s t : Scene} {v w : Write} {ws : List Write}

theorem apply_cell (s : Scene) {i : Nat} (hi : i ∉ w.cells) :
    (s.apply w).2.grid.cell i = s.grid.cell i := by
  cases w with
  | set j id =>
    simp only [Write.cells, List.mem_singleton] at hi
    exact Grid.cell_set_of_ne s.grid (Ne.symm hi) id
  | exchange source target moving displaced =>
    simp only [Write.cells, List.mem_cons, List.not_mem_nil, or_false, not_or] at hi
    simp only [Scene.apply]
    split_ifs
    · simp only [put_grid]
      rw [Grid.cell_set_of_ne _ (Ne.symm hi.1), Grid.cell_set_of_ne _ (Ne.symm hi.2)]
    · rfl

theorem land_cell (ws : List Write) (s : Scene) {i : Nat} (hi : ∀ w ∈ ws, i ∉ w.cells) :
    (s.land ws).grid.cell i = s.grid.cell i := by
  induction ws generalizing s with
  | nil => rfl
  | cons w ws ih =>
    obtain ⟨hw, hws⟩ := List.forall_mem_cons.mp hi
    rw [land_cons, ih _ hws, apply_cell s hw]

theorem sameSize_land (ws : List Write) (s : Scene) : s.SameSize (s.land ws) := by
  induction ws generalizing s with
  | nil => exact ⟨rfl, rfl⟩
  | cons w ws ih =>
    have hw := sameSize_apply s w
    have hws := ih (s.apply w).2
    exact ⟨hws.1.trans hw.1, hws.2.trans hw.2⟩

theorem applyAll_cons (s : Scene) (w : Write) (ws : List Write) :
    (s.applyAll (w :: ws)).1 = (s.apply w).1 + ((s.apply w).2.applyAll ws).1 := by
  have hfold : ∀ (ws : List Write) (n : Nat) (s : Scene),
      (ws.foldl (fun r w => (r.1 + (r.2.apply w).1, (r.2.apply w).2)) (n, s)).1
        = n + (s.applyAll ws).1 := by
    intro ws
    induction ws with
    | nil => intro n s; rfl
    | cons w ws ih =>
      intro n s
      have hn := ih (n + (s.apply w).1) (s.apply w).2
      have hzero := ih (0 + (s.apply w).1) (s.apply w).2
      calc
        _ = n + (s.apply w).1 + ((s.apply w).2.applyAll ws).1 := hn
        _ = n + (0 + (s.apply w).1 + ((s.apply w).2.applyAll ws).1) := by omega
        _ = n + (s.applyAll (w :: ws)).1 := congrArg (n + ·) hzero.symm
  have hw := hfold ws (0 + (s.apply w).1) (s.apply w).2
  exact hw.trans (by rw [Nat.zero_add])

theorem apply_of_current (hw : w.Current s.grid) : (s.apply w).1 = 2 := by
  cases w with
  | set i id => exact hw.elim
  | exchange source target moving displaced =>
    obtain ⟨hmoving, hdisplaced⟩ := hw
    simp only [Scene.apply, hmoving, hdisplaced, and_self, if_true]

theorem landed_of_current (hw : w.Current s.grid) (hfits : w.Fits s.grid.size) :
    w.Landed (s.apply w).2.grid := by
  cases w with
  | set i id => exact hw.elim
  | exchange source target moving displaced =>
    obtain ⟨hsource, htarget⟩ := hfits
    obtain ⟨hmoving, hdisplaced⟩ := hw
    simp only [Scene.apply, hmoving, hdisplaced, and_self, if_true, put_grid]
    have hback := Grid.cell_set_self (g := s.grid.set target.toNat moving) hsource displaced
    refine ⟨?_, hback⟩
    by_cases heq : source.toNat = target.toNat
    · -- a cell exchanged with itself keeps what it holds
      rw [← heq] at hdisplaced hback ⊢
      rw [hback, ← hdisplaced, hmoving]
    · rw [Grid.cell_set_of_ne _ heq, Grid.cell_set_self htarget]

/-- Exchanges ready to land: all are current, and no two have a cell in common. -/
structure Batch (s : Scene) (ws : List Write) : Prop where
  current : ∀ w ∈ ws, w.Current s.grid
  fits : ∀ w ∈ ws, w.Fits s.grid.size
  apart : ws.Pairwise Write.Apart

namespace Batch

theorem concat (h : s.Batch ws) (hcurrent : w.Current s.grid) (hfits : w.Fits s.grid.size)
    (hapart : ∀ v ∈ ws, v.Apart w) : s.Batch (ws ++ [w]) where
  current := List.forall_mem_append.mpr ⟨h.current, List.forall_mem_singleton.mpr hcurrent⟩
  fits := List.forall_mem_append.mpr ⟨h.fits, List.forall_mem_singleton.mpr hfits⟩
  apart := List.pairwise_append.mpr
    ⟨h.apart, List.pairwise_singleton _ _, fun v hv => List.forall_mem_singleton.mpr (hapart v hv)⟩

theorem perm (h : s.Batch ws) {ws' : List Write} (hperm : ws'.Perm ws) : s.Batch ws' where
  current w hw := h.current w (hperm.subset hw)
  fits w hw := h.fits w (hperm.subset hw)
  apart := hperm.symm.pairwise h.apart fun hvw => hvw.symm

theorem tail (h : s.Batch (w :: ws)) : (s.apply w).2.Batch ws where
  current v hv := by
    refine (h.current v (List.mem_cons_of_mem _ hv)).of_cells fun i hi => ?_
    exact apply_cell s fun hiw => (List.pairwise_cons.mp h.apart).1 v hv hiw hi
  fits v hv := by
    rw [(sameSize_apply s w).size]
    exact h.fits v (List.mem_cons_of_mem _ hv)
  apart := (List.pairwise_cons.mp h.apart).2

theorem drop {vs : List Write} (h : s.Batch (vs ++ ws)) : (s.land vs).Batch ws := by
  induction vs generalizing s with
  | nil => exact h
  | cons v vs ih => exact ih h.tail

/-- None is dropped. -/
theorem applyAll (h : s.Batch ws) : (s.applyAll ws).1 = 2 * ws.length := by
  induction ws generalizing s with
  | nil => rfl
  | cons w ws ih =>
    rw [applyAll_cons, ih h.tail, apply_of_current (h.current w (List.mem_cons_self ..)),
      List.length_cons]
    omega

theorem landed (h : s.Batch ws) : ∀ w ∈ ws, w.Landed (s.land ws).grid := by
  induction ws generalizing s with
  | nil => simp
  | cons w ws ih =>
    refine List.forall_mem_cons.mpr ⟨?_, ih h.tail⟩
    have hfirst := landed_of_current (h.current w (List.mem_cons_self ..))
      (h.fits w (List.mem_cons_self ..))
    -- what lands later has no cell in common with the first
    refine hfirst.of_cells fun i hi => land_cell ws _ fun v hv hiv => ?_
    exact (List.pairwise_cons.mp h.apart).1 v hv hi hiv

/-- The order in which the exchanges land does not matter. -/
theorem land_perm (h : s.Batch ws) {ws' : List Write} (hperm : ws'.Perm ws) :
    (s.land ws').grid = (s.land ws).grid := by
  have hsize := sameSize_land ws s
  have hsize' := sameSize_land ws' s
  refine Grid.ext_cell (hsize'.1.trans hsize.1.symm) (hsize'.2.trans hsize.2.symm) fun i _ => ?_
  by_cases hi : ∃ w ∈ ws, i ∈ w.cells
  · obtain ⟨w, hw, hi⟩ := hi
    exact (h.landed w hw).cell_eq ((h.perm hperm).landed w (hperm.symm.subset hw)) hi
  · push Not at hi
    rw [land_cell ws s hi, land_cell ws' s fun w hw => hi w (hperm.subset hw)]

end Batch

end Scene

end Sandfall
