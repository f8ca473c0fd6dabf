import Sandfall.Proofs.Awake
import Sandfall.Proofs.Bounds

/-! Chunks tile the grid. A cell belongs to the chunk that `ofCell` names and to no other, so a
write changes the contents of that chunk alone. -/

namespace Sandfall.Chunks

def contents (c : Chunks) (g : Grid) (i : Nat) : List MaterialId := (c.cellsOf i).map g.cell

theorem checksum_eq (c : Chunks) (g : Grid) (i : Nat) :
    c.checksum g i = Checksum.ofList (c.contents g i) :=
  List.foldl_map.symm

theorem SameStamps.cellsOf {c d : Chunks} (h : SameStamps c d) (i : Nat) :
    d.cellsOf i = c.cellsOf i := by
  obtain ⟨_, _, _, _, _, _, _, rfl⟩ := h
  rfl

theorem SameStamps.contents {c d : Chunks} (h : SameStamps c d) (g : Grid) (i : Nat) :
    d.contents g i = c.contents g i := by
  rw [Chunks.contents, Chunks.contents, h.cellsOf]

/-- A chunk reaches over the numbers that are divided to it, as far as the side goes. -/
theorem reach_iff {cells k n : Nat} (hcells : cells ≤ Config.maxDimension) (hk : k < along cells) :
    (reach cells k).1 ≤ n ∧ n < (reach cells k).2 ↔ n < cells ∧ n / edge = k := by
  rw [Checked.reach_eq hcells hk]
  simp only [along, edge] at hk ⊢
  omega

variable {c : Chunks} {g : Grid} {i j x y : Nat}

theorem coords_lt (hi : i < c.count) : (c.coords i).1 < c.across ∧ (c.coords i).2 < c.down := by
  have hacross : 0 < c.across := Nat.pos_of_mul_pos_right (Nat.lt_of_le_of_lt (Nat.zero_le i) hi)
  exact ⟨Nat.mod_lt i hacross, Nat.div_lt_of_lt_mul hi⟩

theorem indexOf_eq_iff {cx cy : Nat} (hcx : cx < c.across) :
    c.indexOf cx cy = i ↔ cx = (c.coords i).1 ∧ cy = (c.coords i).2 := by
  have hacross : 0 < c.across := Nat.lt_of_le_of_lt (Nat.zero_le cx) hcx
  rw [indexOf, coords, Nat.mul_comm]
  constructor
  · rintro rfl
    rw [Nat.mul_add_mod, Nat.mod_eq_of_lt hcx, Nat.mul_add_div hacross, Nat.div_eq_of_lt hcx]
    exact ⟨rfl, rfl⟩
  · rintro ⟨rfl, rfl⟩
    exact Nat.div_add_mod i c.across

theorem inBounds_iff {cx cy : Int} : c.inBounds cx cy = true ↔
    0 ≤ cx ∧ cx < c.across ∧ 0 ≤ cy ∧ cy < c.down := by
  simp [inBounds, and_assoc]

theorem indexOf_lt {cx cy : Nat} (hcx : cx < c.across) (hcy : cy < c.down) :
    c.indexOf cx cy < c.count := by
  calc
    cy * c.across + cx < cy * c.across + c.across := by omega
    _ = (cy + 1) * c.across := by ring
    _ ≤ c.down * c.across := Nat.mul_le_mul_right _ hcy
    _ = c.count := Nat.mul_comm _ _

/-- Two chunks of the map that share an edge or a corner. -/
structure Adjacent (c : Chunks) (i j : Nat) : Prop where
  ne : i ≠ j
  inside : i < c.count ∧ j < c.count
  column : (c.coords i).1 ≤ (c.coords j).1 + 1 ∧ (c.coords j).1 ≤ (c.coords i).1 + 1
  row : (c.coords i).2 ≤ (c.coords j).2 + 1 ∧ (c.coords j).2 ≤ (c.coords i).2 + 1

theorem Adjacent.symm (h : c.Adjacent i j) : c.Adjacent j i :=
  ⟨h.ne.symm, h.inside.symm, h.column.symm, h.row.symm⟩

/-- The steps from a chunk to those around it. -/
theorem mem_around {dx dy : Int} :
    (dx, dy) ∈ [((-1 : Int), (-1 : Int)), (0, -1), (1, -1), (-1, 0), (1, 0), (-1, 1), (0, 1),
        (1, 1)] ↔ (-1 ≤ dx ∧ dx ≤ 1) ∧ (-1 ≤ dy ∧ dy ≤ 1) ∧ ¬(dx = 0 ∧ dy = 0) := by
  simp only [List.mem_cons, Prod.mk.injEq, List.not_mem_nil, or_false]
  omega

theorem mem_neighbours (hj : j < c.count) : i ∈ c.neighbours j ↔ c.Adjacent j i := by
  obtain ⟨hx, hy⟩ := coords_lt hj
  simp only [neighbours, List.mem_filterMap, Prod.exists, mem_around]
  constructor
  · rintro ⟨dx, dy, ⟨hdx, hdy, hstep⟩, hin⟩
    split_ifs at hin with hbounds
    obtain ⟨hleft, hright, htop, hbottom⟩ := inBounds_iff.mp hbounds
    have hcx : ((c.coords j).1 + dx).toNat < c.across := by omega
    have hcy : ((c.coords j).2 + dy).toNat < c.down := by omega
    have hindex := Option.some.inj hin
    obtain ⟨hcolumn, hrow⟩ := (indexOf_eq_iff hcx).mp hindex
    refine ⟨?_, ⟨hj, hindex ▸ indexOf_lt hcx hcy⟩, by omega, by omega⟩
    rintro rfl
    omega
  · rintro ⟨hne, ⟨-, hi⟩, hcolumn, hrow⟩
    obtain ⟨hx', hy'⟩ := coords_lt hi
    -- chunks in the same column and row are the same
    have hstep : ¬((c.coords i).1 = (c.coords j).1 ∧ (c.coords i).2 = (c.coords j).2) := fun h =>
      hne (((indexOf_eq_iff hx').mpr h).symm.trans ((indexOf_eq_iff hx').mpr ⟨rfl, rfl⟩))
    refine ⟨(c.coords i).1 - (c.coords j).1, (c.coords i).2 - (c.coords j).2, by omega, ?_⟩
    rw [add_sub_cancel, add_sub_cancel, if_pos (inBounds_iff.mpr (by omega)), Int.toNat_natCast,
      Int.toNat_natCast, (indexOf_eq_iff hx').mpr ⟨rfl, rfl⟩]

theorem mem_cellsOf (h : Checked.Covers c g) (hi : i < c.count) {k : Nat} : k ∈ c.cellsOf i ↔
    ∃ x y, x < g.width ∧ y < g.height ∧ g.index x y = k ∧ c.ofCell x y = i := by
  obtain ⟨hcx, hcy⟩ := coords_lt hi
  have hleft := (Checked.bounds_spec h hi).1
  have hchunk : ∀ x y, x < g.width →
      (c.ofCell x y = i ↔ x / edge = (c.coords i).1 ∧ y / edge = (c.coords i).2) :=
    fun x y hx => indexOf_eq_iff (div_edge_lt_along (h.width ▸ hx))
  -- the bounds say which columns and rows belong to the chunk
  have hx : ∀ x, (c.bounds (c.coords i).1 (c.coords i).2).left ≤ x ∧
      x < (c.bounds (c.coords i).1 (c.coords i).2).right ↔
        x < g.width ∧ x / edge = (c.coords i).1 :=
    fun x => h.width ▸ reach_iff (h.width ▸ h.narrow) hcx
  have hy : ∀ y, (c.bounds (c.coords i).1 (c.coords i).2).top ≤ y ∧
      y < (c.bounds (c.coords i).1 (c.coords i).2).bottom ↔
        y < g.height ∧ y / edge = (c.coords i).2 :=
    fun y => h.height ▸ reach_iff (h.height ▸ h.short) hcy
  simp only [cellsOf, List.mem_flatMap, List.mem_range'_1, Grid.index, h.width]
  generalize c.bounds (c.coords i).1 (c.coords i).2 = b at hleft hx hy ⊢
  constructor
  · rintro ⟨y, hrow, hcolumn⟩
    obtain ⟨hy, hcy⟩ := (hy y).mp (by omega)
    obtain ⟨hx, hcx⟩ := (hx (k - y * g.width)).mp (by omega)
    exact ⟨k - y * g.width, y, hx, hy, by omega, (hchunk _ _ hx).mpr ⟨hcx, hcy⟩⟩
  · rintro ⟨x, y, hin, hrow, rfl, hof⟩
    obtain ⟨hcx, hcy⟩ := (hchunk x y hin).mp hof
    have hx := (hx x).mpr ⟨hin, hcx⟩
    have hy := (hy y).mpr ⟨hrow, hcy⟩
    exact ⟨y, by omega, by omega⟩

theorem contents_set (h : Checked.Covers c g) (hi : i < c.count) (hx : x < g.width)
    (hne : c.ofCell x y ≠ i) (id : MaterialId) :
    c.contents (g.set (g.index x y) id) i = c.contents g i := by
  apply List.map_congr_left
  intro k hk
  obtain ⟨x', y', hx', -, rfl, hchunk⟩ := (mem_cellsOf h hi).mp hk
  apply Grid.cell_set_of_ne
  intro hindex
  obtain ⟨rfl, rfl⟩ := Grid.index_inj hx hx' hindex
  exact hne hchunk

end Sandfall.Chunks
