import Sandfall.Proofs.Changes
import Sandfall.Proofs.Redraw

/-! Painting in any order. Two cells that get the same material may be painted in either order, so
to paint a disc whose numbers fit into words is to set its cells one by one, in whatever order they
are listed. And since a chunk that the disc meets holds one of its cells, the chunks woken are those
of the cells painted. -/

namespace Sandfall

namespace Chunks

/-- A chunk that is hit is awake, counts anew and is to be drawn again; to any other nothing has
happened. -/
structure Touched (i : Nat) (p : Prop) (c d : Chunks) : Prop where
  hit : p → d.isActive i = true ∧ d.sleep[i]? = some 0 ∧ d.isDirty i = true
  spared : ¬p → d.isActive i = c.isActive i ∧ d.sleep[i]? = c.sleep[i]? ∧ d.isDirty i = c.isDirty i

namespace Touched

variable {i : Nat} {p q : Prop} {c d e : Chunks}

theorem refl (i : Nat) (c : Chunks) : Touched i False c c := ⟨False.elim, fun _ => ⟨rfl, rfl, rfl⟩⟩

theorem trans (h : Touched i p c d) (h' : Touched i q d e) : Touched i (p ∨ q) c e := by
  by_cases hq : q
  · exact ⟨fun _ => h'.hit hq, fun hnot => absurd (.inr hq) hnot⟩
  · obtain ⟨hactive, hsleep, hdirty⟩ := h'.spared hq
    constructor
    · rintro (hp | hq')
      · obtain ⟨hactive', hsleep', hdirty'⟩ := h.hit hp
        exact ⟨hactive.trans hactive', hsleep.trans hsleep', hdirty.trans hdirty'⟩
      · exact absurd hq' hq
    · intro hnot
      obtain ⟨hactive', hsleep', hdirty'⟩ := h.spared fun hp => hnot (.inl hp)
      exact ⟨hactive.trans hactive', hsleep.trans hsleep', hdirty.trans hdirty'⟩

end Touched

variable {c : Chunks} {i : Nat}

theorem touched_touch (hi : i < c.count) (j : Nat) : Touched i (j = i) c (c.touch j) := by
  have hslot : i < markSlots c.count := Nat.lt_of_lt_of_le hi c.count_le_markSlots
  constructor
  · rintro rfl
    rw [isActive_touch, isDirty_touch, touch_eq]
    refine ⟨by simp [hi], ?_, by simp [hslot]⟩
    exact Vector.getElem?_setIfInBounds_self.trans (if_pos hi)
  · intro hji
    rw [isActive_touch, isDirty_touch, touch_eq]
    exact ⟨by simp [hji], Vector.getElem?_setIfInBounds_ne hji, by simp [hji]⟩

theorem touched_foldl (hi : i < c.count) (js : List Nat) :
    Touched i (i ∈ js) c (js.foldl touch c) := by
  induction js generalizing c with
  | nil => simpa using Touched.refl i c
  | cons j js ih =>
    have hcount : (c.touch j).count = c.count := (sameStamps_touch c j).count
    rw [List.mem_cons, eq_comm]
    exact (touched_touch hi j).trans (ih (hcount ▸ hi))

theorem touched_wakeDisc {g : Grid} (h : Checked.Covers c g) {cx cy radius : Int32}
    (hr : 0 ≤ radius) (hfits : DiscFits cx cy radius) (hi : i < c.count) :
    Touched i (∃ p ∈ World.discCells g cx cy radius, c.ofCell p.1 p.2 = i) c
      (c.wakeDisc cx cy radius) := by
  have htouched := touched_foldl hi (c.discChunks cx cy radius)
  rwa [mem_discChunks h hr hfits, ← wakeDisc_eq] at htouched

end Chunks

namespace Grid

theorem set_comm (g : Grid) (i j : Nat) (id : MaterialId) :
    (g.set i id).set j id = (g.set j id).set i id := by
  by_cases hij : i = j
  · rw [hij]
  · unfold set
    simp only [Vector.setIfInBound_comm _ _ hij]

end Grid

namespace Scene

theorem put_comm (s : Scene) (i j : Nat) (id : MaterialId) :
    (s.put i id).put j id = (s.put j id).put i id := by
  have hchunk : ∀ k x y, (s.chunks.touch k).ofCell x y = s.chunks.ofCell x y :=
    fun k => (Chunks.sameStamps_touch s.chunks k).ofCell
  have hcoords : ∀ k, (s.grid.set k id).coords = s.grid.coords := fun _ => rfl
  simp only [put, hcoords, Chunks.touchCell, hchunk, Grid.set_comm s.grid i j,
    Chunks.touch_comm s.chunks]

end Scene

namespace World

variable {b : RuleBook} {w : World}

/-- The cells of a grid within a radius of a place. -/
def disc (width height : Nat) (cx cy radius : Int) : Finset (Nat × Nat) :=
  (Finset.range width ×ˢ Finset.range height).filter fun p =>
    ((p.1 : Int) - cx) ^ 2 + ((p.2 : Int) - cy) ^ 2 ≤ radius ^ 2

theorem mem_disc {width height x y : Nat} {cx cy radius : Int} :
    (x, y) ∈ disc width height cx cy radius ↔
      (x < width ∧ y < height) ∧ ((x : Int) - cx) ^ 2 + ((y : Int) - cy) ^ 2 ≤ radius ^ 2 := by
  simp only [disc, Finset.mem_filter, Finset.mem_product, Finset.mem_range]

/-- The brush goes over the cells of the disc. -/
theorem mem_discCells_iff (h : w.scene.Sound) {cx cy radius : Int32} (hr : 0 ≤ radius)
    (hfits : DiscFits cx cy radius) {p : Nat × Nat} : p ∈ discCells w.scene.grid cx cy radius ↔
      p ∈ disc w.width w.height cx.toInt cy.toInt radius.toInt := by
  obtain ⟨x, y⟩ := p
  rw [mem_discCells_of_fits hr hfits h.narrow h.short, mem_disc, sq, sq, sq]
  exact Iff.rfl

theorem nodup_discReach (side : Nat) (centre radius : Int32) :
    ((discReach side centre radius).map Prod.fst).Nodup := by
  have hall : ((List.range side).map fun p => (p, Int32.ofNat p - centre)).map Prod.fst
      = List.range side := by
    rw [List.map_map]
    exact List.map_id _
  have hsub := (List.filter_sublist
    (l := (List.range side).map fun p => (p, Int32.ofNat p - centre))
    (p := fun e => -radius ≤ e.2 && e.2 ≤ radius)).map Prod.fst
  rw [hall] at hsub
  exact List.nodup_range.sublist hsub

theorem nodup_discCells (g : Grid) (cx cy radius : Int32) : (discCells g cx cy radius).Nodup := by
  have hcolumns := nodup_discReach g.width cx radius
  have hrows := List.pairwise_map.mp (nodup_discReach g.height cy radius)
  unfold discCells
  rw [List.nodup_flatMap]
  constructor
  · intro (y, dy) _
    have hkept := hcolumns.sublist <| (List.filter_sublist (l := discReach g.width cx radius)
      (p := fun e => e.2 * e.2 + dy * dy ≤ radius * radius)).map Prod.fst
    have hrow : Function.Injective fun x : Nat => (x, y) := fun x x' h => (Prod.mk.inj h).1
    have hplaces := hkept.map hrow
    rwa [List.map_map] at hplaces
  · refine hrows.imp fun {e e'} hne p hp hp' => ?_
    obtain ⟨_, -, rfl⟩ := List.mem_map.mp hp
    obtain ⟨_, -, heq⟩ := List.mem_map.mp hp'
    exact hne (Prod.mk.inj heq).2.symm

/-- A list of the cells of the disc is, but for its order, what the brush goes over. -/
theorem perm_discCells (h : w.scene.Sound) {cx cy radius : Int32} (hr : 0 ≤ radius)
    (hfits : DiscFits cx cy radius) {places : List (Nat × Nat)} (hnodup : places.Nodup)
    (hplaces : places.toFinset = disc w.width w.height cx.toInt cy.toInt radius.toInt) :
    places.Perm (discCells w.scene.grid cx cy radius) := by
  refine (List.perm_ext_iff_of_nodup hnodup (nodup_discCells ..)).mpr fun p => ?_
  rw [mem_discCells_iff h hr hfits, ← hplaces, List.mem_toFinset]

theorem paint_perm (s : Scene) {is js : List Nat} (h : is.Perm js) (id : MaterialId) :
    paint s (is.map fun i => (i, id)) = paint s (js.map fun j => (j, id)) := by
  have : RightCommutative fun (s : Scene) i => s.put i id := ⟨fun s i j => s.put_comm i j id⟩
  unfold paint
  rw [List.foldl_map, List.foldl_map]
  exact h.foldl_eq s

theorem obeyAll_sets {places : List (Nat × Nat)} {id : MaterialId}
    (hin : ∀ p ∈ places, p.1 < w.width ∧ p.2 < w.height) (hknown : w.book.isKnown id = true) :
    w.obeyAll (places.map fun p => .set p.1 p.2 id) = { w with
      scene := paint w.scene ((places.map fun p => w.scene.grid.index p.1 p.2).map fun i =>
        (i, id)) } := by
  rw [← obeyAll_strokes]
  · rw [strokes, List.map_map, List.map_map]
    refine congrArg w.obeyAll (List.map_congr_left fun p hp => ?_)
    have hx : p.1 < w.width := (hin p hp).1
    have hcolumn : w.scene.grid.index p.1 p.2 % w.width = p.1 := by
      rw [Grid.index, Nat.mul_comm]
      exact (Nat.mul_add_mod ..).trans (Nat.mod_eq_of_lt hx)
    have hrow : w.scene.grid.index p.1 p.2 / w.width = p.2 := by
      rw [Grid.index, Nat.mul_comm]
      exact (Nat.mul_add_div (Nat.zero_lt_of_lt hx) ..).trans (by rw [Nat.div_eq_of_lt hx]; rfl)
    simp only [Function.comp_apply, hcolumn, hrow]
  · intro c hc
    obtain ⟨i, hi, rfl⟩ := List.mem_map.mp hc
    obtain ⟨p, hp, rfl⟩ := List.mem_map.mp hi
    exact ⟨Grid.index_lt (hin p hp).1 (hin p hp).2, hknown⟩

theorem fillDisc_eq_zero {cx cy radius : Int32} {id : MaterialId}
    (h : radius < 0 ∨ w.book.isKnown id = false) : w.fillDisc cx cy radius id = (0, w) := by
  have hrefused : (radius < 0 || !w.book.isKnown id) = true := by
    rcases h with hr | hunknown
    · rw [decide_eq_true hr, Bool.true_or]
    · rw [hunknown, Bool.not_false, Bool.or_true]
  rw [fillDisc, if_pos hrefused]

theorem fillDisc_fst {cx cy radius : Int32} (hr : 0 ≤ radius) {id : MaterialId}
    (hknown : w.book.isKnown id = true) :
    (w.fillDisc cx cy radius id).1 = (discCells w.scene.grid cx cy radius).length := by
  have hallowed : ¬(radius < 0 || !w.book.isKnown id) = true := by simp [hknown, hr]
  rw [fillDisc, if_neg hallowed]

/-- The brush does to a world what the commands do that set the cells of the disc. -/
theorem fillDisc_eq_obeyAll (h : w.scene.Sound) {cx cy radius : Int32} (hr : 0 ≤ radius)
    (hfits : DiscFits cx cy radius) {id : MaterialId} (hknown : w.book.isKnown id = true)
    {places : List (Nat × Nat)} (hnodup : places.Nodup)
    (hplaces : places.toFinset = disc w.width w.height cx.toInt cy.toInt radius.toInt) :
    w.fillDisc cx cy radius id
      = ((disc w.width w.height cx.toInt cy.toInt radius.toInt).card,
        w.obeyAll (places.map fun p => .set p.1 p.2 id)) := by
  have hperm := perm_discCells h hr hfits hnodup hplaces
  have hin : ∀ p ∈ places, p.1 < w.width ∧ p.2 < w.height := fun p hp =>
    (mem_disc.mp (hplaces ▸ List.mem_toFinset.mpr hp)).1
  have hindices := hperm.map fun p => w.scene.grid.index p.1 p.2
  refine Prod.ext ?_ ?_
  · rw [fillDisc_fst hr hknown, ← hperm.length_eq, ← hplaces, List.toFinset_card_of_nodup hnodup]
  · rw [fillDisc_eq_paint h hr hfits hknown, obeyAll_sets hin hknown,
      paint_perm w.scene hindices id, List.map_map]
    rfl

/-- To paint a disc whose numbers fit into words is to set its cells, each once and in any order, and
their number is returned. A negative radius or an unknown material does nothing. The chunks woken
are those that hold a cell of the disc. -/
theorem disc_is_painted_cell_by_cell (hw : Reached b w) (cx cy radius : Int32) (id : MaterialId) :
    (radius < 0 ∨ b.isKnown id = false → w.fillDisc cx cy radius id = (0, w)) ∧
      (0 ≤ radius → DiscFits cx cy radius → b.isKnown id = true →
        ∀ places : List (Nat × Nat), places.Nodup →
          places.toFinset = disc w.width w.height cx.toInt cy.toInt radius.toInt →
          w.fillDisc cx cy radius id
            = ((disc w.width w.height cx.toInt cy.toInt radius.toInt).card,
              w.obeyAll (places.map fun p => .set p.1 p.2 id))) ∧
      (0 ≤ radius → DiscFits cx cy radius → ∀ i < w.scene.chunks.count, Chunks.Touched i
        (∃ p ∈ disc w.width w.height cx.toInt cy.toInt radius.toInt,
          w.scene.chunks.ofCell p.1 p.2 = i)
        w.scene.chunks (w.scene.chunks.wakeDisc cx cy radius)) := by
  have hrested := hw.rested
  obtain rfl := hrested.book
  have hsound := hrested.sound
  refine ⟨fillDisc_eq_zero, fun hr hfits hknown places hnodup hplaces => ?_,
    fun hr hfits i hi => ?_⟩
  · exact fillDisc_eq_obeyAll hsound hr hfits hknown hnodup hplaces
  · have htouched := Chunks.touched_wakeDisc (Checked.covers hsound) hr hfits hi
    simpa only [mem_discCells_iff hsound hr hfits] using htouched

/-- A disc over the edge of two chunks, its cells set from the right. Another, which begins in the
second chunk, leaves the first one alone. -/
theorem disc_is_painted_cell_by_cell_edge :
    ∃ b w, RuleBook.compile Catalog.builtin = .ok b ∧ Reached b w ∧ w.width = 40 ∧ w.height = 1 ∧
      w.fillDisc 32 1 2 Catalog.Builtin.sand = (3, w.obeyAll [.set 33 0 Catalog.Builtin.sand,
        .set 32 0 Catalog.Builtin.sand, .set 31 0 Catalog.Builtin.sand]) ∧
      (w.scene.chunks.wakeDisc 32 1 2).isActive 0 = true ∧
      (w.scene.chunks.wakeDisc 34 0 2).sleep[0]? = w.scene.chunks.sleep[0]? := by
  obtain ⟨b, hb⟩ := RuleBook.compile_builtin
  have hknown : b.isKnown Catalog.Builtin.sand = true := by
    rw [(RuleBook.reads_of_compile hb).known]
    decide +kernel
  have hreached : Reached b (opened { width := 40, height := 1 } b) :=
    .create (create_eq_ok_iff.mpr ⟨by decide, rfl⟩)
  obtain ⟨-, hfill, hwake⟩ := disc_is_painted_cell_by_cell hreached 32 1 2 Catalog.Builtin.sand
  obtain ⟨-, -, hfar⟩ := disc_is_painted_cell_by_cell hreached 34 0 2 Catalog.Builtin.sand
  have hcells : [(33, 0), (32, 0), (31, 0)].toFinset = disc 40 1 32 1 2 := by decide
  have hmeets : ∃ p ∈ disc 40 1 32 1 2, (Chunks.ofSize 40 1).ofCell p.1 p.2 = 0 := by decide
  have hmisses : ¬∃ p ∈ disc 40 1 34 0 2, (Chunks.ofSize 40 1).ofCell p.1 p.2 = 0 := by decide
  have hfirst : 0 < (Chunks.ofSize 40 1).count := by decide
  refine ⟨b, _, hb, hreached, rfl, rfl, ?_, ?_, ?_⟩
  · exact hfill (by decide) (by decide) hknown [(33, 0), (32, 0), (31, 0)] (by decide) hcells
  · exact ((hwake (by decide) (by decide) 0 hfirst).hit hmeets).1
  · exact ((hfar (by decide) (by decide) 0 hfirst).spared hmisses).2.1

end World

end Sandfall
