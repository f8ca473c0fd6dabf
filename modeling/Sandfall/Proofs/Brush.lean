import Mathlib.Data.Int.Order.Lemmas
import Sandfall.Proofs.Discs
import Sandfall.Proofs.Lasting
import Sandfall.Proofs.Tiling

/-! The disc brush. Whichever chunks are touched, neither their order nor how often matters, and the
brush touches the chunks of the cells it paints if the numbers of the disc fit into words: the
nearest place of a chunk to the centre is a place of the grid, so a chunk that the disc meets has a
cell painted. So to paint a disc is to paint its cells one by one. -/

namespace Sandfall

namespace Chunks

/-! Touching some chunks. -/

theorem woke_wake (c : Chunks) (i : Nat) : (c.wake i).woke
    = if i < c.count ∧ c.isActive i = false then countUp c.woke else c.woke := by
  unfold wake
  split_ifs <;> simp_all

theorem touch_eq (c : Chunks) (i : Nat) : c.touch i = { c with
    sleep := c.sleep.setIfInBounds i 0
    active := c.active.setIfInBounds i true
    dirty := c.dirty.setIfInBounds i true
    woke := if i < c.count ∧ c.isActive i = false then countUp c.woke else c.woke } := by
  obtain ⟨woke, hwake⟩ := c.wake_eq i
  have hwoke : woke = (c.wake i).woke := by rw [hwake]
  rw [touch, hwake, hwoke, woke_wake]
  rfl

theorem touch_comm (c : Chunks) (i j : Nat) : (c.touch i).touch j = (c.touch j).touch i := by
  by_cases hij : i = j
  · rw [hij]
  rw [touch_eq (c.touch i), touch_eq (c.touch j), isActive_touch c j i, isActive_touch c i j,
    touch_eq c i, touch_eq c j]
  simp only [count, hij, Ne.symm hij, false_and, decide_false, Bool.false_or]
  rw [Vector.setIfInBound_comm _ _ hij, Vector.setIfInBound_comm _ _ hij,
    Vector.setIfInBound_comm _ _ hij]
  congr 1
  grind

theorem touch_touch (c : Chunks) (i : Nat) : (c.touch i).touch i = c.touch i := by
  have hawake : ¬(i < (c.touch i).count ∧ (c.touch i).isActive i = false) := by
    rintro ⟨hi, hidle⟩
    rw [(sameStamps_touch c i).count] at hi
    simp [isActive_touch, hi] at hidle
  rw [touch_eq (c.touch i), if_neg hawake, touch_eq c i]
  simp only [Vector.setIfInBounds_setIfInBounds]

instance : RightCommutative touch := ⟨touch_comm⟩

theorem foldl_touch_again {is js : List Nat} (h : ∀ j ∈ js, j ∈ is) (c : Chunks) :
    js.foldl touch (is.foldl touch c) = is.foldl touch c := by
  induction js with
  | nil => rfl
  | cons j js ih =>
    obtain ⟨hj, hjs⟩ := List.forall_mem_cons.mp h
    have hperm := List.perm_cons_erase hj
    have hagain : (is.foldl touch c).touch j = is.foldl touch c := by
      calc
        (is.foldl touch c).touch j = (is ++ [j]).foldl touch c := by
          rw [List.foldl_append, List.foldl_cons, List.foldl_nil]
        _ = (j :: j :: is.erase j).foldl touch c :=
          ((List.perm_append_singleton j is).trans (hperm.cons j)).foldl_eq c
        _ = (j :: is.erase j).foldl touch c := by
          rw [List.foldl_cons, List.foldl_cons, touch_touch, List.foldl_cons]
        _ = is.foldl touch c := hperm.symm.foldl_eq c
    rw [List.foldl_cons, hagain]
    exact ih hjs

/-- Only which chunks are touched matters, neither their order nor how often. -/
theorem foldl_touch_congr {is js : List Nat} (h : ∀ i, i ∈ is ↔ i ∈ js) (c : Chunks) :
    is.foldl touch c = js.foldl touch c := by
  calc
    is.foldl touch c = js.foldl touch (is.foldl touch c) :=
      (foldl_touch_again (fun j hj => (h j).mpr hj) c).symm
    _ = (is ++ js).foldl touch c := List.foldl_append.symm
    _ = (js ++ is).foldl touch c := List.perm_append_comm.foldl_eq c
    _ = is.foldl touch (js.foldl touch c) := List.foldl_append
    _ = js.foldl touch c := foldl_touch_again (fun i hi => (h i).mp hi) c

/-! The chunks a disc meets. -/

/-- The chunks touched by the brush, row by row. -/
def discChunks (c : Chunks) (cx cy radius : Int32) : List Nat :=
  let r := max radius 0
  let left := max (cx - r) 0
  let top := max (cy - r) 0
  let right := min (cx + r) (Int32.ofNat c.width - 1)
  let bottom := min (cy + r) (Int32.ofNat c.height - 1)
  if right < left ∨ bottom < top then []
  else (span top bottom).flatMap fun ky => (span left right).flatMap fun kx =>
    if c.meetsDisc cx cy r kx ky then [c.indexOf kx ky] else []

/-- A fold whose steps touch chunks touches them all, if only the dimensions say which. -/
theorem SameStamps.foldl_touch {α : Type} {c : Chunks} {f : Chunks → α → Chunks}
    {chunks : α → List Nat} (hf : ∀ d, SameStamps c d → ∀ x, f d x = (chunks x).foldl touch d) :
    ∀ (xs : List α) (d : Chunks), SameStamps c d →
      xs.foldl f d = (xs.flatMap chunks).foldl touch d
  | [], _, _ => rfl
  | x :: xs, d, hcd => by
    have hx : SameStamps c (f d x) := by
      rw [hf d hcd x]
      exact hcd.trans (SameStamps.foldl sameStamps_touch _ d)
    rw [List.foldl_cons, foldl_touch hf xs _ hx, hf d hcd x, List.flatMap_cons, List.foldl_append]

theorem wakeDisc_eq (c : Chunks) (cx cy radius : Int32) :
    c.wakeDisc cx cy radius = (c.discChunks cx cy radius).foldl touch c := by
  simp only [wakeDisc, discChunks]
  split_ifs
  · rfl
  · refine SameStamps.foldl_touch (fun d hcd ky => ?_) _ c (.refl c)
    refine SameStamps.foldl_touch (c := c) (fun e hce kx => ?_) _ d hcd
    have hmeets : e.meetsDisc = c.meetsDisc := by
      obtain ⟨_, _, _, _, _, _, _, rfl⟩ := hce
      rfl
    rw [hmeets, hce.indexOf]
    split_ifs <;> rfl

section

variable {cells k : Nat} (hcells : cells ≤ Config.maxDimension) (hk : k < along cells) (n : Int32)
include hcells hk

theorem toInt_clamp : (clamp n (Int32.ofNat (reach cells k).1)
    (Int32.ofNat (reach cells k).2 - 1)).toInt
      = max ((reach cells k).1 : Int) (min n.toInt ((reach cells k).2 - 1)) := by
  have hreach := Checked.reach_eq hcells hk
  have hends : (reach cells k).1 ≤ Config.maxDimension ∧
      (reach cells k).2 ≤ Config.maxDimension := by
    simp only [hreach, along, edge] at hk ⊢
    omega
  rw [clamp, InWord.toInt_max, InWord.toInt_min, InWord.toInt_ofNat hends.1,
    InWord.toInt_last hends.2]

theorem exists_nearest : ∃ m : Nat, (clamp n (Int32.ofNat (reach cells k).1)
    (Int32.ofNat (reach cells k).2 - 1)).toInt = m ∧ m < cells ∧ m / edge = k ∧
      ∀ m' : Nat, m' < cells → m' / edge = k →
        (m - n.toInt) * (m - n.toInt) ≤ (m' - n.toInt) * (m' - n.toInt) := by
  have hreach := Checked.reach_eq hcells hk
  have hclamp := toInt_clamp hcells hk n
  refine ⟨(max ((reach cells k).1 : Int) (min n.toInt ((reach cells k).2 - 1))).toNat, ?_⟩
  rw [hclamp]
  simp only [hreach, along, edge] at hk ⊢
  refine ⟨by omega, by omega, by omega, fun m' hm' hmk => ?_⟩
  rw [← Int.natAbs_le_iff_mul_self_le]
  omega

end

theorem mem_span {low high : Int32} {k : Nat} (h : low.toInt ≤ high.toInt) :
    k ∈ span low high ↔ low.toInt.toNat / edge ≤ k ∧ k ≤ high.toInt.toNat / edge := by
  have hle : low.toInt.toNat / edge ≤ high.toInt.toNat / edge := Nat.div_le_div_right (by omega)
  rw [span, List.mem_range'_1, ← Int32.toNat_toInt, ← Int32.toNat_toInt]
  omega

variable {c : Chunks} {g : Grid} {cx cy radius : Int32}

/-- A disc around a centre near the grid meets a chunk if and only if it holds a place of the
chunk. -/
theorem meetsDisc_iff (h : Checked.Covers c g)
    (hcx : -0x40000000 ≤ cx.toInt ∧ cx.toInt ≤ 0x40010000)
    (hcy : -0x40000000 ≤ cy.toInt ∧ cy.toInt ≤ 0x40010000) {kx ky : Nat} (hkx : kx < c.across)
    (hky : ky < c.down) : c.meetsDisc cx cy radius kx ky = true ↔
      ∃ x y : Nat, x < g.width ∧ y < g.height ∧ x / edge = kx ∧ y / edge = ky ∧
        ((x : Int) - cx.toInt) * (x - cx.toInt) + (y - cy.toInt) * (y - cy.toInt)
          ≤ radius.toInt * radius.toInt := by
  have hnarrow := h.width ▸ h.narrow
  have hshort := h.height ▸ h.short
  obtain ⟨x, hx, hxin, hxk, hnearx⟩ := exists_nearest hnarrow hkx cx
  obtain ⟨y, hy, hyin, hyk, hneary⟩ := exists_nearest hshort hky cy
  have hdisc : c.meetsDisc cx cy radius kx ky = true ↔
      ((x : Int) - cx.toInt) * (x - cx.toInt) + (y - cy.toInt) * (y - cy.toInt)
        ≤ radius.toInt * radius.toInt := by
    unfold Config.maxDimension at hnarrow hshort
    rw [meetsDisc, decide_eq_true_iff, squares64_le_iff, toInt_sub64, toInt_sub64]
    · simp only [bounds, hx, hy]
    all_goals
      rw [toInt_sub64]
      simp only [bounds, hx, hy]
      omega
  rw [hdisc]
  constructor
  · intro hmeets
    exact ⟨x, y, h.width ▸ hxin, h.height ▸ hyin, hxk, hyk, hmeets⟩
  · rintro ⟨x', y', hx', hy', hxk', hyk', hholds⟩
    have hlex := hnearx x' (h.width ▸ hx') hxk'
    have hley := hneary y' (h.height ▸ hy') hyk'
    exact (Int.add_le_add hlex hley).trans hholds

theorem mem_discChunks (h : Checked.Covers c g) (hr : 0 ≤ radius) (hfits : DiscFits cx cy radius)
    {i : Nat} : i ∈ c.discChunks cx cy radius ↔
      ∃ p ∈ World.discCells g cx cy radius, c.ofCell p.1 p.2 = i := by
  have hwidth := h.width
  have hheight := h.height
  have hnonneg : 0 ≤ radius.toInt := Int32.le_iff_toInt_le.mp hr
  have hr' : max radius 0 = radius := Int32.toInt_inj.mp (by
    rw [InWord.toInt_max]
    exact max_eq_left hnonneg)
  have hleft := toInt_low hfits.left
  have htop := toInt_low hfits.top
  have hnarrow : c.width ≤ Config.maxDimension := hwidth ▸ h.narrow
  have hshort : c.height ≤ Config.maxDimension := hheight ▸ h.short
  have hright := toInt_high hfits.right hnarrow
  have hbottom := toInt_high hfits.bottom hshort
  simp only [discChunks, hr', Prod.exists, World.mem_discCells_of_fits hr hfits h.narrow h.short,
    Int32.lt_iff_toInt_lt]
  generalize max (cx - radius) 0 = left at hleft ⊢
  generalize max (cy - radius) 0 = top at htop ⊢
  generalize min (cx + radius) (Int32.ofNat c.width - 1) = right at hright ⊢
  generalize min (cy + radius) (Int32.ofNat c.height - 1) = bottom at hbottom ⊢
  split_ifs with hnone
  · -- a place of the disc in the grid would lie between the borders
    simp only [List.not_mem_nil, false_iff]
    rintro ⟨x, y, ⟨hin, hdisc⟩, -⟩
    have hx := near_of_disc hnonneg hdisc
    have hy := near_of_disc hnonneg (Int.add_comm _ _ ▸ hdisc)
    omega
  · push Not at hnone
    have hcx := centre_near hfits.left hfits.right hnarrow (hleft ▸ hright ▸ hnone.1)
    have hcy := centre_near hfits.top hfits.bottom hshort (htop ▸ hbottom ▸ hnone.2)
    simp only [List.mem_flatMap, mem_span hnone.1, mem_span hnone.2]
    constructor
    · rintro ⟨ky, hky, kx, hkx, hi⟩
      have hacross : kx < c.across := by
        simp only [across, along, edge] at hkx ⊢
        omega
      have hdown : ky < c.down := by
        simp only [down, along, edge] at hky ⊢
        omega
      split_ifs at hi with hmeets
      · obtain ⟨x, y, hx, hy, rfl, rfl, hdisc⟩ :=
          (meetsDisc_iff h hcx hcy hacross hdown).mp hmeets
        exact ⟨x, y, ⟨⟨hx, hy⟩, hdisc⟩, (List.mem_singleton.mp hi).symm⟩
      · cases hi
    · rintro ⟨x, y, ⟨⟨hx, hy⟩, hdisc⟩, rfl⟩
      have hnearx := near_of_disc hnonneg hdisc
      have hneary := near_of_disc hnonneg (Int.add_comm _ _ ▸ hdisc)
      have hmeets : c.meetsDisc cx cy radius (x / edge) (y / edge) = true :=
        (meetsDisc_iff h hcx hcy (div_edge_lt_along (hwidth ▸ hx))
          (div_edge_lt_along (hheight ▸ hy))).mpr ⟨x, y, hx, hy, rfl, rfl, hdisc⟩
      refine ⟨y / edge, ?_, x / edge, ?_, ?_⟩
      · constructor <;> exact Nat.div_le_div_right (by omega)
      · constructor <;> exact Nat.div_le_div_right (by omega)
      · rw [if_pos hmeets]
        exact List.mem_singleton_self _

end Chunks

namespace World

theorem paint_cons (s : Scene) (c : Nat × MaterialId) (cells : List (Nat × MaterialId)) :
    paint s (c :: cells) = paint (s.put c.1 c.2) cells := rfl

/-- To paint places one by one is to set their cells and to touch their chunks. -/
theorem paint_places {s : Scene} (h : s.Sound) {places : List (Nat × Nat)}
    (hin : ∀ p ∈ places, p.1 < s.grid.width ∧ p.2 < s.grid.height) (id : MaterialId) :
    paint s (places.map fun p => (s.grid.index p.1 p.2, id)) = { s with
      grid := places.foldl (fun g (x, y) => g.set (g.index x y) id) s.grid
      chunks := (places.map fun p => s.chunks.ofCell p.1 p.2).foldl Chunks.touch s.chunks } := by
  induction places generalizing s with
  | nil => rfl
  | cons p places ih =>
    obtain ⟨⟨hx, hy⟩, hin⟩ := List.forall_mem_cons.mp hin
    have hput := h.put_index hx hy id
    have hrest := ih (h.put (s.grid.index p.1 p.2) id) hin
    have hchunk : (s.chunks.touchCell p.1 p.2).ofCell = s.chunks.ofCell :=
      funext₂ (Chunks.sameStamps_touch s.chunks _).ofCell
    rw [hput] at hrest
    simp only [hchunk] at hrest
    rw [List.map_cons, paint_cons, hput]
    exact hrest

/-- To paint a disc whose numbers fit into words is to paint its cells one by one. -/
theorem fillDisc_eq_paint {w : World} (h : w.scene.Sound) {cx cy radius : Int32} (hr : 0 ≤ radius)
    (hfits : DiscFits cx cy radius) {id : MaterialId} (hknown : w.book.isKnown id = true) :
    (w.fillDisc cx cy radius id).2 = { w with
      scene := paint w.scene ((discCells w.scene.grid cx cy radius).map fun p =>
        (w.scene.grid.index p.1 p.2, id)) } := by
  have hallowed : ¬(radius < 0 || !w.book.isKnown id) = true := by
    simp [hknown, hr]
  have hchunks : (if (discCells w.scene.grid cx cy radius).isEmpty then w.scene.chunks
      else w.scene.chunks.wakeDisc cx cy radius)
        = ((discCells w.scene.grid cx cy radius).map fun p =>
          w.scene.chunks.ofCell p.1 p.2).foldl Chunks.touch w.scene.chunks := by
    split_ifs with hempty
    · rw [List.isEmpty_iff.mp hempty]
      rfl
    · rw [Chunks.wakeDisc_eq]
      refine Chunks.foldl_touch_congr (fun i => ?_) _
      rw [Chunks.mem_discChunks (Checked.covers h) hr hfits, List.mem_map]
  rw [paint_places h fun p hp => (mem_discCells.mp hp).1, ← hchunks]
  simp only [fillDisc, if_neg hallowed]

end World

/-! A disc whose squares do not fit: its radius is 0x8000 and the grid's first cell is the one
corner of its box that lies in the grid. Twice the square of the radius wraps to a negative number,
so the cell is painted, while in words of twice the size the disc does not meet its chunk. -/

namespace Chunks

end Chunks

namespace World

end World

end Sandfall
