import Sandfall.Proofs.Reckon

/-! The mosaic of chunks. The rectangles of the chunks lie side by side, none empty and none over
the edge, so a cell is in one of them and no other; chunks are numbered by column and row without
gap; and what a changed chunk wakes is the ring of chunks around it. -/

namespace Sandfall.Chunks

namespace Bounds

structure Holds (b : Bounds) (x y : Nat) : Prop where
  column : b.left ≤ x ∧ x < b.right
  row : b.top ≤ y ∧ y < b.bottom

/-- The rectangle has a place in it, and none beyond the sides. -/
structure Inside (b : Bounds) (width height : Nat) : Prop where
  columns : b.left < b.right ∧ b.right ≤ width
  rows : b.top < b.bottom ∧ b.bottom ≤ height

end Bounds

def rectOf (c : Chunks) (i : Nat) : Bounds := c.bounds (c.coords i).1 (c.coords i).2

def places (c : Chunks) : Set (Nat × Nat) := {p | p.1 < c.across ∧ p.2 < c.down}

theorem reach_lt {cells k : Nat} (hcells : cells ≤ Config.maxDimension) (hk : k < along cells) :
    (reach cells k).1 < (reach cells k).2 ∧ (reach cells k).2 ≤ cells := by
  rw [Checked.reach_eq hcells hk]
  simp only [along, edge] at hk ⊢
  omega

variable {c : Chunks} {i j x y : Nat}

theorem holds_iff (hwidth : c.width ≤ Config.maxDimension)
    (hheight : c.height ≤ Config.maxDimension) (hx : x < c.width) (hy : y < c.height)
    (hi : i < c.count) :
    (c.rectOf i).Holds x y ↔ i = c.ofCell x y := by
  obtain ⟨hcx, hcy⟩ := coords_lt hi
  have hcolumn := reach_iff (n := x) hwidth hcx
  have hrow := reach_iff (n := y) hheight hcy
  rw [and_iff_right hx] at hcolumn
  rw [and_iff_right hy] at hrow
  calc
    (c.rectOf i).Holds x y ↔ x / edge = (c.coords i).1 ∧ y / edge = (c.coords i).2 :=
      ⟨fun h => ⟨hcolumn.mp h.column, hrow.mp h.row⟩, fun h => ⟨hcolumn.mpr h.1, hrow.mpr h.2⟩⟩
    _ ↔ c.ofCell x y = i := (indexOf_eq_iff (div_edge_lt_along hx)).symm
    _ ↔ i = c.ofCell x y := eq_comm

theorem inside_rectOf (hwidth : c.width ≤ Config.maxDimension)
    (hheight : c.height ≤ Config.maxDimension) (hi : i < c.count) :
    (c.rectOf i).Inside c.width c.height :=
  ⟨reach_lt hwidth (coords_lt hi).1, reach_lt hheight (coords_lt hi).2⟩

/-- Numbers and places of chunks say the same. -/
theorem invOn_coords (c : Chunks) :
    Set.InvOn c.coords (fun p => c.indexOf p.1 p.2) c.places (Set.Iio c.count) := by
  constructor
  · rintro ⟨cx, cy⟩ ⟨hcx, -⟩
    obtain ⟨hx, hy⟩ := (indexOf_eq_iff hcx).mp rfl
    exact Prod.ext hx.symm hy.symm
  · intro i hi
    exact (indexOf_eq_iff (coords_lt hi).1).mpr ⟨rfl, rfl⟩

theorem bijOn_indexOf (c : Chunks) :
    Set.BijOn (fun p => c.indexOf p.1 p.2) c.places (Set.Iio c.count) :=
  c.invOn_coords.bijOn (fun _ hp => indexOf_lt hp.1 hp.2) fun _ hi => coords_lt hi

/-- Of the chunks, those around a chunk are woken with it, and to the others nothing happens. -/
theorem exists_passed_neighbours (hi : i < c.count) (hj : j < c.count) :
    ∃ woken, (woken = true ↔ c.Adjacent i j) ∧
      Passed j woken c ((c.neighbours i).foldl wake c) :=
  ⟨_, by rw [decide_eq_true_iff, mem_neighbours hi], passed_foldl_wake hj (c.neighbours i)⟩

/-- Every cell of the grid is in the rectangle of its own chunk and of no other; every rectangle has
a cell in it and lies in the grid; the numbers of the chunks and their columns and rows determine
each other; and to wake the neighbours of a chunk is to wake all others at most one column and one
row away. -/
theorem chunks_tile_the_grid (c : Chunks) (hwidth : c.width ≤ Config.maxDimension)
    (hheight : c.height ≤ Config.maxDimension) :
    (∀ x y, x < c.width → y < c.height →
      ∀ i, i < c.count ∧ (c.rectOf i).Holds x y ↔ i = c.ofCell x y) ∧
    (∀ i < c.count, (c.rectOf i).Inside c.width c.height) ∧
    Set.BijOn (fun p => c.indexOf p.1 p.2) c.places (Set.Iio c.count) ∧
    Set.InvOn c.coords (fun p => c.indexOf p.1 p.2) c.places (Set.Iio c.count) ∧
    ∀ i < c.count, ∀ j < c.count, ∃ woken, (woken = true ↔ c.Adjacent i j) ∧
      Passed j woken c ((c.neighbours i).foldl wake c) := by
  refine ⟨fun x y hx hy i => ⟨?_, ?_⟩, fun i hi => inside_rectOf hwidth hheight hi,
    c.bijOn_indexOf, c.invOn_coords, fun i hi j hj => exists_passed_neighbours hi hj⟩
  · rintro ⟨hi, hholds⟩
    exact (holds_iff hwidth hheight hx hy hi).mp hholds
  · rintro rfl
    have hof := ofCell_lt hx hy
    exact ⟨hof, (holds_iff hwidth hheight hx hy hof).mpr rfl⟩

/-- A map of four columns and two rows of chunks, the last of both cut: the corner of the grid is in
the last chunk only, which is four cells wide and one high, and next to three others. -/
theorem chunks_tile_the_grid_cut :
    (ofSize 100 33).width ≤ Config.maxDimension ∧ (ofSize 100 33).height ≤ Config.maxDimension ∧
      (ofSize 100 33).count = 8 ∧ (ofSize 100 33).rectOf 7 = ⟨96, 32, 100, 33⟩ ∧
      (∀ i, i < 8 ∧ ((ofSize 100 33).rectOf i).Holds 99 32 ↔ i = 7) ∧
      ((ofSize 100 33).rectOf 7).Inside 100 33 ∧
      Set.BijOn (fun p => (ofSize 100 33).indexOf p.1 p.2) (ofSize 100 33).places (Set.Iio 8) ∧
      (ofSize 100 33).neighbours 7 = [2, 3, 6] := by
  obtain ⟨hcell, hrect, hplaces, -, -⟩ :=
    chunks_tile_the_grid (ofSize 100 33) (by decide) (by decide)
  exact ⟨by decide, by decide, by decide, by decide, hcell 99 32 (by decide) (by decide),
    hrect 7 (by decide), hplaces, by decide⟩

end Sandfall.Chunks
