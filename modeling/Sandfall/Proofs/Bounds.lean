import Sandfall.Proofs.Checked
import Sandfall.Proofs.Tables

/-! No access is out of range. On a sound scene each checked function has a result, and it is that
of the unchecked one; rules stay in range because their tables are well formed. -/

namespace Sandfall

namespace Checked

/-! Loops and lists. -/

/-- A checked loop has the result of the unchecked one if every step has, as long as some property
holds that the steps keep. -/
theorem foldlM_eq_some {α σ : Type} {f : σ → α → Option σ} {g : σ → α → σ} (P : σ → Prop)
    {xs : List α} {s : σ} (hs : P s)
    (h : ∀ s, P s → ∀ x ∈ xs, f s x = some (g s x) ∧ P (g s x)) :
    xs.foldlM f s = some (xs.foldl g s) := by
  induction xs generalizing s with
  | nil => rfl
  | cons x xs ih =>
    obtain ⟨hx, hP⟩ := h s hs x (List.mem_cons_self ..)
    rw [List.foldlM_cons, hx, List.foldl_cons]
    exact ih hP fun t ht y hy => h t ht y (List.mem_cons_of_mem _ hy)

theorem mapM_eq_some {α β : Type} {f : α → Option β} {g : α → β} {xs : List α}
    (h : ∀ x ∈ xs, f x = some (g x)) : xs.mapM f = some (xs.map g) := by
  induction xs with
  | nil => rfl
  | cons x xs ih =>
    obtain ⟨hx, hxs⟩ := List.forall_mem_cons.mp h
    rw [List.mapM_cons, hx, ih hxs]
    rfl

theorem getElem?_eq_getD {α : Type} {n : Nat} {v : Vector α n} {i : Nat} (hi : i < n) (d : α) :
    v[i]? = some (v[i]?.getD d) := by
  rw [Vector.getElem?_eq_getElem hi, Option.getD_some]

/-! Cells and stamps. -/

section

variable {g : Grid} {i : Nat}

theorem cell_eq (hi : i < g.size) : cell g i = some (g.cell i) := getElem?_eq_getD hi _

theorem setCell_eq (hi : i < g.size) (id : MaterialId) : setCell g i id = some (g.set i id) :=
  if_pos hi

theorem get_eq (g : Grid) (x y : Int) : get g x y = some (g.get x y) := by
  unfold get Grid.get
  split_ifs with hin
  · exact cell_eq (Grid.index_lt_of_inBounds hin)
  · rfl

theorem stamp_eq {n : Nat} {s : Stamps n} (hi : i < n) (hn : n ≤ UInt32.size) :
    stamp s i = some (s.stamp i) := by
  have hword : word i = some (UInt32.ofNat i) := if_pos (Nat.lt_of_lt_of_le hi hn)
  have hmark := getElem?_eq_getD (v := s.marks) hi 0
  rw [stamp, hmark, Stamps.stamp, Stamps.isStamped]
  simp only [Option.bind_eq_bind, Option.bind_some, hword, decide_eq_true_eq]
  split_ifs <;> rfl

theorem beginStamps_eq {n : Nat} {s : Stamps n} (h : s.Listed) :
    beginStamps s = some s.beginPass := by
  have hwipe : s.stamped.foldlM wipe s.marks
      = some (s.stamped.foldl (fun marks i => marks.setIfInBounds i.toNat 0) s.marks) :=
    foldlM_eq_some (fun _ => True) trivial fun _ _ i hi => ⟨if_pos (h.within i hi), trivial⟩
  rw [beginStamps, hwipe]
  rfl

end

/-! Chunks. -/

section

variable {c : Chunks} {g : Grid} {i : Nat}

theorem wake_eq (c : Chunks) (i : Nat) : wake c i = some (c.wake i) := by
  unfold wake
  split_ifs with hi
  · rw [getElem?_eq_getD (v := c.sleep) hi 0, getElem?_eq_getD (v := c.active) hi false]
    rfl
  · rw [Chunks.wake, if_neg hi]
    rfl

theorem touch_eq (c : Chunks) (i : Nat) : touch c i = some (c.touch i) := by
  rw [touch, wake_eq]
  rfl

theorem wakeAll_eq (c : Chunks) : wakeAll c = some c.wakeAll := by
  have hfold : (List.range c.count).foldlM wake c
      = some ((List.range c.count).foldl Chunks.wake c) :=
    foldlM_eq_some (fun _ => True) trivial fun c _ i _ => ⟨wake_eq c i, trivial⟩
  rw [wakeAll, hfold]
  rfl

theorem wakeDisc_eq (c : Chunks) (cx cy radius : Int32) :
    wakeDisc c cx cy radius = some (c.wakeDisc cx cy radius) := by
  simp only [wakeDisc, Chunks.wakeDisc]
  split_ifs
  · rfl
  · apply foldlM_eq_some (fun _ => True) trivial
    intro c _ ky _
    refine ⟨?_, trivial⟩
    apply foldlM_eq_some (fun _ => True) trivial
    intro c _ kx _
    refine ⟨?_, trivial⟩
    split_ifs
    · exact touch_eq c _
    · rfl

theorem setSleepingEnabled_eq (c : Chunks) (enabled : Bool) :
    setSleepingEnabled c enabled = some (c.setSleepingEnabled enabled) := by
  simp only [setSleepingEnabled, Chunks.setSleepingEnabled]
  split_ifs
  · rfl
  · exact wakeAll_eq _

theorem reach_eq {cells k : Nat} (hcells : cells ≤ Config.maxDimension)
    (hk : k < Chunks.along cells) :
    Chunks.reach cells k = (k * Chunks.edge, min (k * Chunks.edge + Chunks.edge) cells) := by
  have hsize : UInt32.size = 4294967296 := rfl
  simp only [Config.maxDimension] at hcells
  simp only [Chunks.along, Chunks.edge] at hk
  have hfirst : k * 32 % UInt32.size = k * 32 := Nat.mod_eq_of_lt (by omega)
  have hlast : (k * 32 + 32) % UInt32.size = k * 32 + 32 := Nat.mod_eq_of_lt (by omega)
  simp only [Chunks.reach, Chunks.edge, hfirst, hlast]

theorem reach_spec {cells k : Nat} (hcells : cells ≤ Config.maxDimension)
    (hk : k < Chunks.along cells) :
    (Chunks.reach cells k).1 ≤ (Chunks.reach cells k).2 ∧ (Chunks.reach cells k).2 ≤ cells := by
  rw [reach_eq hcells hk]
  simp only [Chunks.along, Chunks.edge] at hk ⊢
  omega

/-- The chunk map covers the grid, whose sides fit a save. -/
structure Covers (c : Chunks) (g : Grid) : Prop where
  width : c.width = g.width
  height : c.height = g.height
  narrow : g.width ≤ Config.maxDimension
  short : g.height ≤ Config.maxDimension

theorem Covers.sameStamps {d : Chunks} (h : Covers c g) (hcd : c.SameStamps d) : Covers d g :=
  ⟨by rw [hcd.width, h.width], by rw [hcd.height, h.height], h.narrow, h.short⟩

theorem slice_eq {first last : Nat} (h : first ≤ last) (hlast : last ≤ g.size) :
    slice g first last = some ((List.range' first (last - first)).map g.cell) :=
  if_pos ⟨h, hlast⟩

theorem bounds_spec (h : Covers c g) (hi : i < c.count) :
    let b := c.bounds (c.coords i).1 (c.coords i).2
    b.left ≤ b.right ∧ b.right ≤ c.width ∧ b.bottom ≤ c.height := by
  have hacross : 0 < c.across := by
    rcases Nat.eq_zero_or_pos c.across with hzero | hpos
    · rw [Chunks.count, Chunks.total, ← Chunks.across, hzero, Nat.zero_mul] at hi
      exact absurd hi (Nat.not_lt_zero i)
    · exact hpos
  have hcx : (c.coords i).1 < Chunks.along c.width := Nat.mod_lt i hacross
  have hcy : (c.coords i).2 < Chunks.along c.height := Nat.div_lt_of_lt_mul hi
  have hwidth := h.narrow
  have hheight := h.short
  rw [← h.width] at hwidth
  rw [← h.height] at hheight
  obtain ⟨hx, hx'⟩ := reach_spec hwidth hcx
  exact ⟨hx, hx', (reach_spec hheight hcy).2⟩

theorem rowsOf_eq (h : Covers c g) (hi : i < c.count) :
    ∃ rows, rowsOf c g i = some rows ∧ rows.flatten = (c.cellsOf i).map g.cell := by
  obtain ⟨hx, hx', hy⟩ := bounds_spec h hi
  rw [Chunks.cellsOf, rowsOf]
  simp only
  generalize c.bounds (c.coords i).1 (c.coords i).2 = b at hx hx' hy ⊢
  refine ⟨(List.range' b.top (b.bottom - b.top)).map fun y =>
    (List.range' (y * c.width + b.left) (b.right - b.left)).map g.cell, ?_, ?_⟩
  · apply mapM_eq_some
    intro y hmem
    rw [List.mem_range'_1] at hmem
    have hrow : y < c.height := by omega
    have hend : y * c.width + c.width ≤ g.size := by
      calc
        y * c.width + c.width = (y + 1) * c.width := by ring
        _ ≤ c.height * c.width := Nat.mul_le_mul_right _ hrow
        _ = g.size := by rw [h.width, h.height, Nat.mul_comm]; rfl
    have hlen : y * c.width + b.right - (y * c.width + b.left) = b.right - b.left := by omega
    rw [slice_eq (by omega) (by omega), hlen]
  · rw [List.map_flatMap, List.flatMap_def]

theorem checksum_eq (h : Covers c g) (hi : i < c.count) :
    checksum c g i = some (c.checksum g i) := by
  obtain ⟨rows, hrows, hcells⟩ := rowsOf_eq h hi
  rw [checksum, hrows, Chunks.checksum, ← List.foldl_map, ← hcells, List.foldl_flatten]
  rfl

theorem noteChange_eq (hi : i < c.count) (sum : UInt32) :
    noteChange c i sum = some (c.noteChange i sum) := by
  rw [noteChange, getElem?_eq_getD (v := c.sleep) hi 0]
  exact foldlM_eq_some (fun _ => True) trivial fun c _ j _ => ⟨wake_eq c j, trivial⟩

theorem noteQuiet_eq (h : Covers c g) (hi : i < c.count) (keepsAwake : MaterialId → Bool) :
    noteQuiet c g keepsAwake i = some (c.noteQuiet (fun k => keepsAwake (g.cell k)) i) := by
  have hsame : c.SameStamps { c with
      sleep := c.sleep.setIfInBounds i (Chunks.tickUp (c.sleep[i]?.getD 0)) } :=
    ⟨_, _, _, _, _, _, _, rfl⟩
  obtain ⟨rows, hrows, hcells⟩ := rowsOf_eq (h.sameStamps hsame) hi
  have hany : (rows.any fun row => row.any keepsAwake)
      = (c.cellsOf i).any fun k => keepsAwake (g.cell k) := by
    rw [← List.any_flatten, hcells, List.any_map]
    rfl
  have hcellsOf : Chunks.cellsOf { c with
      sleep := c.sleep.setIfInBounds i (Chunks.tickUp (c.sleep[i]?.getD 0)) } i = c.cellsOf i := rfl
  rw [noteQuiet, getElem?_eq_getD (v := c.sleep) hi 0, Chunks.noteQuiet]
  simp only [Option.bind_eq_bind, Option.bind_some, Option.pure_def, hrows, hany, hcellsOf]
  split_ifs
  · rfl
  · rfl
  · rw [getElem?_eq_getD (v := c.active) hi false]
    rfl

theorem reconcile_eq (h : Covers c g) (hi : i < c.count) (keepsAwake : MaterialId → Bool)
    (sum : UInt32) :
    reconcile c g keepsAwake i sum
      = some (c.reconcile (fun k => keepsAwake (g.cell k)) i sum) := by
  rw [reconcile, getElem?_eq_getD (v := c.checksums) hi 0, Chunks.reconcile]
  simp only [Option.bind_eq_bind, Option.bind_some]
  split_ifs
  · exact noteChange_eq hi sum
  · exact noteQuiet_eq h hi keepsAwake

theorem updateActivity_eq (h : Covers c g) (keepsAwake : MaterialId → Bool) :
    updateActivity c g keepsAwake = some (c.updateActivity g keepsAwake) := by
  have hsums : (((List.range c.count).filter c.isActive).mapM fun i => do
      let sum ← checksum c g i
      return (i, sum)) = some (c.activeSums g) := by
    apply mapM_eq_some
    intro i hi
    have hi' := List.mem_range.mp (List.mem_of_mem_filter hi)
    rw [checksum_eq h hi']
    rfl
  have hmem : ∀ x ∈ c.activeSums g, x.1 < c.count := by
    intro x hx
    obtain ⟨i, hi, rfl⟩ := List.mem_map.mp hx
    exact List.mem_range.mp (List.mem_of_mem_filter hi)
  rw [updateActivity, hsums, Chunks.updateActivity]
  refine foldlM_eq_some (fun d => c.SameStamps d) (.refl c) ?_
  rintro d hcd ⟨i, sum⟩ hx
  have hi : i < d.count := by
    rw [Chunks.count, hcd.width, hcd.height]
    exact hmem _ hx
  refine ⟨reconcile_eq (h.sameStamps hcd) hi keepsAwake sum, hcd.trans ?_⟩
  simp only [Chunks.reconcile]
  split_ifs
  · exact Chunks.sameStamps_noteChange d i sum
  · exact Chunks.sameStamps_noteQuiet d _ i

end

/-! Scenes. -/

section

variable {s : Scene} {i : Nat}

theorem covers (h : s.Sound) : Covers s.chunks s.grid := ⟨h.width, h.height, h.narrow, h.short⟩

theorem word_eq (h : s.Sound) (hi : i < s.grid.size) : word i = some (UInt32.ofNat i) :=
  if_pos (Nat.lt_of_lt_of_le hi h.size_le)

theorem isStamped_eq (h : s.Sound) (hi : i < s.grid.size) :
    isStamped s i = some (s.isStamped i) := by
  rw [← h.cells_eq] at hi
  rw [isStamped, getElem?_eq_getD (v := s.chunks.stamps.marks) hi 0]
  rfl

theorem put_eq (hi : i < s.grid.size) (id : MaterialId) : put s i id = some (s.put i id) := by
  rw [put, setCell_eq hi, touch_eq]
  rfl

theorem stampCell_eq (h : s.Sound) (hi : i < s.grid.size) :
    stampCell s i = some (s.stamp i) := by
  have hle := h.size_le
  rw [← h.cells_eq] at hi hle
  rw [stampCell, stamp_eq hi hle]
  rfl

theorem write_eq (h : s.Sound) (commit : Commit) (hi : i < s.grid.size) (id : MaterialId) :
    write s commit i id = some (s.write commit i id) := by
  cases commit with
  | immediate => exact put_eq hi id
  | endOfPass =>
    rw [write, word_eq h hi]
    rfl
  | endOfTick =>
    rw [write, word_eq h hi]
    rfl

theorem exchange_eq (h : s.Sound) (commit : Commit) {source target : Nat}
    (hs : source < s.grid.size) (ht : target < s.grid.size) :
    exchange s commit source target = some (s.exchange commit source target) := by
  rw [exchange, cell_eq hs, cell_eq ht]
  cases commit with
  | immediate =>
    have hs' : source < (s.put target (s.grid.cell source)).grid.size := hs
    simp only [Option.bind_eq_bind, Option.bind_some, put_eq ht]
    exact put_eq hs' _
  | endOfPass =>
    simp only [Option.bind_eq_bind, Option.bind_some, word_eq h hs, word_eq h ht]
    rfl
  | endOfTick =>
    simp only [Option.bind_eq_bind, Option.bind_some, word_eq h hs, word_eq h ht]
    rfl

theorem stampMove_eq (h : s.Sound) (r : CompiledRule) {source target : Nat}
    (hs : source < s.grid.size) (ht : target < s.grid.size) :
    stampMove s r source target = some (s.stampMove r source target) := by
  simp only [stampMove, Scene.stampMove, stampCell_eq h ht]
  split_ifs with hfirst hdeferred
  · exact stampCell_eq (h.stamp ht) hs
  · rfl
  · exact stampCell_eq h hs
  · rfl

theorem record_eq (h : s.Sound) {source target : Nat} (hs : source < s.grid.size)
    (ht : target < s.grid.size) : record s source target = some (s.record source target) := by
  rw [record, Scene.record]
  cases htrace : s.trace with
  | none =>
    simp only [Option.map_none]
    rw [← htrace]
  | some t =>
    simp only [word_eq h hs, word_eq h ht]
    rfl

theorem move_eq (h : s.Sound) (r : CompiledRule) {source target : Nat} (hs : source < s.grid.size)
    (ht : target < s.grid.size) : move s r source target = some (s.move r source target) := by
  have hex := h.exchange r.commit hs ht
  have hsize := (Scene.sameSize_exchange s r.commit source target).size
  rw [move, exchange_eq h r.commit hs ht]
  rw [← hsize] at hs ht
  simp only [Option.bind_eq_bind, Option.bind_some, stampMove_eq hex r hs ht]
  have hgrid := Scene.stampMove_grid (s.exchange r.commit source target) r source target
  have hstamped := hex.stampMove r hs ht
  rw [← hgrid] at hs ht
  exact record_eq hstamped hs ht

end

/-! Firing. -/

section

variable {b : RuleBook} {pass : Pass} {r : CompiledRule} {a : Actor} {c : Candidate} {s : Scene}
  {hits : Nat}

theorem candidate_eq (g : Grid) (a : Actor) (o : Int × Int) :
    candidate g a o = some (Firing.candidate? g a o) := by
  simp only [candidate, Firing.candidate?]
  split_ifs with hin
  · rw [cell_eq (Grid.index_lt_of_inBounds hin)]
    rfl
  · rfl

theorem transformActor_eq (h : s.Sound) (ha : a.index < s.grid.size) (this : Option MaterialId)
    (p : Binary32) :
    transformActor r a this p hits s = some (Firing.transformActor r a this p hits s) := by
  cases this with
  | none => rfl
  | some this =>
    have ht := h.alike (s.alike_chance p)
    have hwrite : write (s.chance p).2 r.commit a.index this
        = some ((s.chance p).2.write r.commit a.index this) := write_eq ht r.commit ha this
    simp only [transformActor, Firing.transformActor, hwrite]
    split_ifs <;> rfl

theorem transform_eq (h : s.Sound) (ha : a.index < s.grid.size) (hc : c.index < s.grid.size)
    (this other : Option MaterialId) (p q : Binary32) :
    transform r a c this other p q hits s
      = some (Firing.transform r a c this other p q hits s) := by
  cases other with
  | none => exact transformActor_eq h ha this p
  | some into =>
    have ht := h.alike (s.alike_chance q)
    have hwrite : write (s.chance q).2 r.commit c.index into
        = some ((s.chance q).2.write r.commit c.index into) := write_eq ht r.commit hc into
    have hu := ht.write r.commit hc into
    have ha' : a.index < ((s.chance q).2.write r.commit c.index into).grid.size := by
      rw [(Scene.sameSize_write _ _ _ _).size]
      exact ha
    simp only [transform, Firing.transform, hwrite, Option.bind_eq_bind, Option.bind_some,
      transformActor_eq hu ha' this p, transformActor_eq ht ha this p]
    split_ifs <;> rfl

theorem move_chance_eq (h : s.Sound) (p : Binary32) {source target : Nat}
    (hs : source < s.grid.size) (ht : target < s.grid.size) :
    move (s.chance p).2 r source target = some ((s.chance p).2.move r source target) :=
  move_eq (h.alike (s.alike_chance p)) r hs ht

theorem swap_eq (h : s.Sound) (ha : a.index < s.grid.size) (hc : c.index < s.grid.size)
    (p : Binary32) : swap r a c p s = some (Firing.swap r a c p s) := by
  unfold swap Firing.swap
  by_cases hown : c.index = a.index
  · rw [if_pos hown, if_pos (.inl hown)]
  · rw [if_neg hown, isStamped_eq h hc]
    simp only [Option.bind_eq_bind, Option.bind_some, hown, false_or, move_chance_eq h p ha hc]
    split_ifs <;> rfl

theorem densitySwap_eq (h : s.Sound) (ha : a.index < s.grid.size) (hc : c.index < s.grid.size) :
    densitySwap b r a c s = some (Firing.densitySwap b r a c s) := by
  unfold densitySwap Firing.densitySwap
  rw [isStamped_eq h hc]
  simp only [Option.bind_eq_bind, Option.bind_some, move_chance_eq h _ ha hc]
  split_ifs <;> rfl

theorem throwTarget_eq (h : s.Sound) (sx sy reach : Int) (allow : IdSet) :
    throwTarget a sx sy reach allow s = some (Firing.throwTarget? a sx sy reach allow s) := by
  simp only [throwTarget, Firing.throwTarget?]
  by_cases hin : s.grid.inBounds (a.x + sx * reach) (a.y + sy * reach)
  · have ht := Grid.index_lt_of_inBounds hin
    simp only [hin, if_true, cell_eq ht, isStamped_eq h ht]
    rfl
  · simp only [hin]
    rfl

theorem pullTarget_eq (h : s.Sound) (hc : c.index < s.grid.size) (sx sy back : Int)
    (allow : IdSet) :
    pullTarget a c sx sy back allow s = some (Firing.pullTarget? a c sx sy back allow s) := by
  simp only [pullTarget, Firing.pullTarget?]
  by_cases hin : s.grid.inBounds (c.x - sx * back) (c.y - sy * back)
  · have ht := Grid.index_lt_of_inBounds hin
    simp only [hin, if_true, cell_eq ht, isStamped_eq h ht, isStamped_eq h hc]
    rfl
  · simp only [hin]
    rfl

theorem directionSwap_eq (h : s.Sound) (ha : a.index < s.grid.size) (hc : c.index < s.grid.size)
    (reach : Int) (allow : IdSet) :
    directionSwap r a c reach allow s = some (Firing.directionSwap r a c reach allow s) := by
  simp only [directionSwap, Firing.directionSwap]
  split_ifs with hside hpos
  · rfl
  · rw [throwTarget_eq h, Firing.throwActor]
    cases hto : Firing.throwTarget? a c.dx.sign c.dy.sign reach allow s with
    | none => rfl
    | some t =>
      have hmove := move_eq h r ha (Firing.throwTarget?_eq_some hto).1
      simp only [Option.bind_eq_bind, Option.bind_some, hmove]
      rfl
  · rw [pullTarget_eq h hc, Firing.pullCandidate]
    cases hto : Firing.pullTarget? a c c.dx.sign c.dy.sign (-reach) allow s with
    | none => rfl
    | some t =>
      have hmove := move_eq h r hc (Firing.pullTarget?_eq_some hto).1
      simp only [Option.bind_eq_bind, Option.bind_some, hmove]
      rfl

theorem apply_eq (h : s.Sound) (ha : a.index < s.grid.size) (hc : c.index < s.grid.size)
    (o : Outcome) : apply b r a c o hits s = some (Firing.apply b r a c o hits s) := by
  cases o with
  | noop => rfl
  | stop => rfl
  | transform this other p q => exact transform_eq h ha hc this other p q
  | swap p =>
    rw [apply, swap_eq h ha hc]
    rfl
  | densitySwap =>
    rw [apply, densitySwap_eq h ha hc]
    rfl
  | directionSwap reach allow =>
    rw [apply, directionSwap_eq h ha hc]
    rfl

theorem visit_eq (h : s.Sound) (ha : a.Stands s) {id : MaterialId} (hr : r.WellFormed b id)
    {k : Nat} (hk : k < r.offsets.size) (hits : Nat) :
    visit b r a k hits s = some (Firing.visit b r a k hits s) := by
  have hoffset : r.offset k = ((r.offsets[k]).1.toInt, (r.offsets[k]).2.toInt) := by
    rw [CompiledRule.offset, Array.getD_eq_getD_getElem?, Array.getElem?_eq_getElem hk,
      Option.getD_some]
  rw [visit, Array.getElem?_eq_getElem hk, Firing.visit, hoffset]
  simp only [Option.bind_eq_bind, Option.bind_some, candidate_eq]
  cases hc : Firing.candidate? s.grid a ((r.offsets[k]).1.toInt, (r.offsets[k]).2.toInt) with
  | none => rfl
  | some c =>
    by_cases hslot : r.slot c.id = noMatch
    · simp only [hslot, if_true]
      rfl
    · have hlt := (hr.slots c.id).resolve_left hslot
      have hout : r.outcome (r.slot c.id) = r.outcomes[(r.slot c.id).toNat] := by
        rw [CompiledRule.outcome, Array.getD_eq_getD_getElem?, Array.getElem?_eq_getElem hlt,
          Option.getD_some]
      simp only [hslot, if_false, Array.getElem?_eq_getElem hlt, Option.bind_some, hout]
      exact apply_eq h ha.inside (Firing.candidate?_eq_some hc).inside _

theorem walk_eq (hr : r ∈ b.rules pass a.id) (hw : r.WellFormed b a.id) :
    ∀ (ks : List Nat) (hits : Nat) (s : Scene), (∀ k ∈ ks, k < r.offsets.size) → s.Sound →
      a.Stands s → walk b r a ks hits s = some (Firing.walk b r a ks hits s)
  | [], _, _, _, _, _ => rfl
  | k :: ks, hits, s, hks, h, ha => by
    obtain ⟨hk, hks⟩ := List.forall_mem_cons.mp hks
    have hturn := Firing.visit_turn .none ha hr k hits
    have hnext := hturn.run.sound h
    rw [walk, visit_eq h ha hw hk, Firing.walk]
    simp only [Option.bind_eq_bind, Option.bind_some]
    rcases hvisit : Firing.visit b r a k hits s with ⟨flow, hits', t⟩
    rw [hvisit] at hturn hnext
    cases flow with
    | next => exact walk_eq hr hw ks hits' t hks hnext (hturn.stands (by simp))
    | nextRule => rfl
    | halt => rfl
    | changed => rfl

theorem sample_eq (hr : r ∈ b.rules pass a.id) (hw : r.WellFormed b a.id) :
    ∀ (n hits : Nat) (s : Scene), s.Sound → a.Stands s →
      sample b r a n hits s = some (Firing.sample b r a n hits s)
  | 0, _, _, _, _ => rfl
  | n + 1, hits, s, h, ha => by
    have hpos : 0 < r.count.toNat := by
      rw [hw.count]
      exact hw.listed
    have hk := s.below_lt hpos
    have hst := s.alike_below r.count.toNat
    have ht := h.alike hst
    have hat := ha.alike hst
    simp only [sample, Firing.sample]
    generalize s.below r.count.toNat = drawn at hk ht hat ⊢
    obtain ⟨k, t⟩ := drawn
    simp only at hk ht hat ⊢
    rw [hw.count] at hk
    have hturn := Firing.visit_turn .none hat hr k hits
    have hnext := hturn.run.sound ht
    rw [visit_eq ht hat hw hk]
    simp only [Option.bind_eq_bind, Option.bind_some]
    rcases hvisit : Firing.visit b r a k hits t with ⟨flow, hits', u⟩
    rw [hvisit] at hturn hnext
    cases flow with
    | next => exact sample_eq hr hw n hits' u hnext (hturn.stands (by simp))
    | nextRule => rfl
    | halt => rfl
    | changed => rfl

theorem fire_eq (h : s.Sound) (ha : a.Stands s) (hr : r ∈ b.rules pass a.id)
    (hw : r.WellFormed b a.id) : fire b r a s = some (Firing.fire b r a s) := by
  simp only [fire, Firing.fire]
  cases hstarts : r.starts with
  | none => exact sample_eq hr hw _ _ _ h ha
  | some starts =>
    have hgrouped := hw.groups starts hstarts
    have htwo := hgrouped.two
    have hpos : 0 < CompiledRule.groupCount starts := by
      rw [CompiledRule.groupCount]
      omega
    have hg := s.below_lt hpos
    have hst := s.alike_below (CompiledRule.groupCount starts)
    have ht := h.alike hst
    have hat := ha.alike hst
    simp only
    generalize s.below (CompiledRule.groupCount starts) = drawn at hg ht hat ⊢
    obtain ⟨g, t⟩ := drawn
    simp only [CompiledRule.groupCount] at hg ht hat ⊢
    have hfirst : g < starts.size := by omega
    have hlast : g + 1 < starts.size := by omega
    have hle := hgrouped.le_count hlast
    simp only [CompiledRule.group, Array.getD_eq_getD_getElem?, Array.getElem?_eq_getElem hfirst,
      Array.getElem?_eq_getElem hlast, Option.getD_some, Option.bind_eq_bind,
      Option.bind_some] at hle ⊢
    refine walk_eq hr hw _ 0 t ?_ ht hat
    intro k hk
    rw [List.mem_range'_1] at hk
    omega

theorem tryRules_eq :
    ∀ (rs : List CompiledRule) (s : Scene), s.Sound → a.Stands s →
      (∀ r ∈ rs, r ∈ b.rules pass a.id ∧ r.WellFormed b a.id) →
        tryRules b a rs s = some (Firing.tryRules b a rs s)
  | [], _, _, _, _ => rfl
  | r :: rs, s, h, ha, hrs => by
    obtain ⟨⟨hr, hw⟩, hrs⟩ := List.forall_mem_cons.mp hrs
    have hst : s.Alike (s.countAttempted.chance r.chance).2 :=
      s.alike_countAttempted.trans (Scene.alike_chance _ _)
    have ht := h.alike hst
    have hat := ha.alike hst
    simp only [tryRules, Firing.tryRules]
    generalize s.countAttempted.chance r.chance = drawn at ht hat ⊢
    obtain ⟨passed, t⟩ := drawn
    cases passed with
    | false => exact tryRules_eq rs t ht hat hrs
    | true =>
      have hu := ht.alike t.alike_countFired
      have hau := hat.alike t.alike_countFired
      have hturn := Firing.fire_turn .none hau hr
      have hnext := hturn.run.sound hu
      simp only [if_true, fire_eq hu hau hr hw, Option.bind_eq_bind, Option.bind_some]
      rcases hfire : Firing.fire b r a t.countFired with ⟨flow, u⟩
      rw [hfire] at hturn hnext
      cases flow with
      | next => exact tryRules_eq rs u hnext (hturn.stands (by simp)) hrs
      | nextRule => exact tryRules_eq rs u hnext (hturn.stands (by simp)) hrs
      | halt => rfl
      | changed => rfl

/-- A book whose rules are well formed. -/
def WellMade (b : RuleBook) : Prop :=
  ∀ pass id, ∀ r ∈ b.rules pass id, r.WellFormed b id

theorem runCell_eq (hb : WellMade b) (h : s.Sound) {x y : Nat} (hx : x < s.grid.width)
    (hy : y < s.grid.height) (hfree : s.isStamped (s.grid.index x y) = false) :
    runCell b pass x y s = some (Sandfall.runCell b pass x y s) := by
  have hcell := cell_eq (Grid.index_lt hx hy)
  have ha : Actor.Stands ⟨x, y, s.grid.index x y, s.grid.cell (s.grid.index x y)⟩ s :=
    ⟨hx, hy, rfl, rfl, hfree⟩
  simp only [runCell, Sandfall.runCell, hcell, Option.bind_eq_bind, Option.bind_some]
  rcases hrs : b.rules pass (s.grid.cell (s.grid.index x y)) with _ | ⟨r, rs⟩
  · rfl
  · have hst := s.alike_countVisited
    have hall : ∀ r' ∈ r :: rs, r' ∈ b.rules pass (s.grid.cell (s.grid.index x y)) ∧
        r'.WellFormed b (s.grid.cell (s.grid.index x y)) := by
      intro r' hr'
      rw [← hrs] at hr'
      exact ⟨hr', hb _ _ r' hr'⟩
    exact tryRules_eq _ _ (h.alike hst) (ha.alike hst) hall

end

/-! Handlers. -/

section

variable {b : RuleBook}

theorem place_eq (s : Scene) (b : RuleBook) (x y : Int) (id : MaterialId) :
    place s b x y id = some (s.place b x y id) := by
  unfold place Scene.place
  split_ifs with hin
  · rw [Bool.and_eq_true] at hin
    rw [put_eq (Grid.index_lt_of_inBounds hin.1)]
    rfl
  · rfl

theorem isEmptyAt_eq (s : Scene) (x y : Int) : isEmptyAt s x y = some (s.isEmptyAt x y) := by
  rw [isEmptyAt, get_eq]
  rfl

theorem firstEmpty_eq (s : Scene) (places : List (Int × Int)) :
    firstEmpty s places = some (places.find? fun (x, y) => s.isEmptyAt x y) := by
  induction places with
  | nil => rfl
  | cons place places ih =>
    obtain ⟨x, y⟩ := place
    simp only [firstEmpty, isEmptyAt_eq, List.find?_cons, Option.bind_eq_bind, Option.bind_some]
    cases s.isEmptyAt x y with
    | true => rfl
    | false => exact ih

theorem emit_eq (p : Post) (material : MaterialId) (chance : Binary32) (s : Scene) :
    emit b p material chance s = some (Handler.emit b p material chance s) := by
  simp only [emit, Handler.emit, firstEmpty_eq, place_eq, Option.bind_eq_bind, Option.bind_some]
  split_ifs
  · rfl
  · generalize List.find? _ _ = found
    cases found <;> rfl

theorem perform_eq (p : Post) (s : Scene) (action : Action) :
    perform b p s action = some (Handler.perform b p s action) := by
  cases action with
  | walk =>
    simp only [perform, Handler.perform, isEmptyAt_eq, place_eq, Option.bind_eq_bind,
      Option.bind_some]
    split_ifs <;> rfl
  | get dx dy =>
    rw [perform, get_eq]
    rfl
  | isEmpty dx dy =>
    rw [perform, isEmptyAt_eq]
    rfl
  | set dx dy id =>
    rw [perform, place_eq]
    rfl
  | _ => rfl

theorem update_eq (p : Post) (s : Scene) (h : Handler) :
    update b p s h = some (h.update b p s) := by
  cases h with
  | emitter material chance => exact emit_eq p material chance s
  | script actions =>
    exact foldlM_eq_some (fun _ => True) trivial fun t _ action _ =>
      ⟨perform_eq p t action, trivial⟩

end

/-! Passes and ticks. -/

section

variable {b : RuleBook} {hs : Handlers} {pass : Pass} {s : Scene}

theorem visitCell_eq (hb : WellMade b) (h : s.Sound) {x y : Nat} (hx : x < s.grid.width)
    (hy : y < s.grid.height) :
    visitCell b hs pass y s x = some (Scan.visitCell b hs pass y s x) := by
  have hin := Grid.index_lt hx hy
  simp only [visitCell, Scan.visitCell, cell_eq hin, isStamped_eq h hin, Option.bind_eq_bind,
    Option.bind_some]
  by_cases hempty : s.grid.cell (s.grid.index x y) = MaterialId.empty
  · simp [hempty]
  · cases hstamped : s.isStamped (s.grid.index x y) with
    | true => simp
    | false =>
      simp only [hempty, Bool.false_eq_true, or_self, if_false,
        runCell_eq hb h hx hy hstamped, Option.bind_some]
      split_ifs with hspecial
      · cases pass with
        | rising => rfl
        | falling =>
          cases hs.get (s.grid.cell (s.grid.index x y)) with
          | none => rfl
          | some handler =>
            simp only [update_eq]
            rfl
      · rfl

/-- The scene is sound and has kept its dimensions. -/
def Kept (s t : Scene) : Prop := t.Sound ∧ s.SameSize t

theorem kept_refl (h : s.Sound) : Kept s s := ⟨h, rfl, rfl⟩

theorem Kept.run {t u : Scene} {ds : List Deed} (h : Kept s t) (hrun : t.Run b hs pass ds u) :
    Kept s u :=
  ⟨hrun.sound h.1, hrun.sameSize.1.trans h.2.1, hrun.sameSize.2.trans h.2.2⟩

theorem visitChunk_eq (hb : WellMade b) (h : s.Sound) {y cx : Nat} (hy : y < s.grid.height)
    (right : Bool) (hcx : cx < s.chunks.across) :
    visitChunk b hs pass y right s cx = some (Scan.visitChunk b hs pass y right s cx) := by
  have hcy : y / Chunks.edge < s.chunks.down := by
    rw [Chunks.down, h.height]
    simp only [Chunks.along, Chunks.edge]
    omega
  have hchunk : s.chunks.indexOf cx (y / Chunks.edge) < s.chunks.count := by
    calc
      y / Chunks.edge * s.chunks.across + cx < (y / Chunks.edge + 1) * s.chunks.across := by
        rw [Nat.add_mul]
        omega
      _ ≤ s.chunks.down * s.chunks.across := Nat.mul_le_mul_right _ hcy
      _ = s.chunks.count := Nat.mul_comm _ _
  have hactive : s.chunks.active[s.chunks.indexOf cx (y / Chunks.edge)]?
      = some (s.chunks.isActive (s.chunks.indexOf cx (y / Chunks.edge))) :=
    getElem?_eq_getD hchunk false
  simp only [visitChunk, Scan.visitChunk, hactive, Option.bind_eq_bind, Option.bind_some]
  split_ifs
  · refine foldlM_eq_some (Kept s) (kept_refl h) ?_
    intro t ht x hx
    rw [Scan.mem_directed, Scan.columns, List.mem_range'_1] at hx
    have hxt : x < t.grid.width := by
      rw [ht.2.1]
      omega
    have hyt : y < t.grid.height := by
      rw [ht.2.2]
      exact hy
    exact ⟨visitCell_eq hb ht.1 hxt hyt, ht.run (Scan.visitCell_run hxt hyt)⟩
  · rfl

theorem across_eq (h : s.Sound) : s.chunks.across = Chunks.along s.grid.width := by
  rw [Chunks.across, h.width]

theorem visitRow_eq (hb : WellMade b) (h : s.Sound) {y : Nat} (hy : y < s.grid.height) :
    visitRow b hs pass s y = some (Scan.visitRow b hs pass s y) := by
  have hst := s.alike_chance .half
  simp only [visitRow, Scan.visitRow]
  refine foldlM_eq_some (Kept s) ⟨h.alike hst, by rw [hst.grid], by rw [hst.grid]⟩ ?_
  intro t ht cx hcx
  have hyt : y < t.grid.height := by
    rw [ht.2.2]
    exact hy
  have hcxt : cx < t.chunks.across := by
    rw [Scan.mem_directed, List.mem_range, hst.chunks, across_eq h] at hcx
    rw [across_eq ht.1, ht.2.1]
    exact hcx
  exact ⟨visitChunk_eq hb ht.1 hyt _ hcxt, ht.run (Scan.visitChunk_run hyt)⟩

theorem beginPass_eq (h : s.Sound) : beginPass s = some s.beginPass := by
  rw [beginPass, beginStamps_eq h.stamps]
  rfl

theorem scan_eq (hb : WellMade b) (h : s.Sound) :
    (Scan.rowOrder pass s.grid.height).foldlM (visitRow b hs pass) s.beginPass
      = some (Scan.scan b hs pass s) := by
  refine foldlM_eq_some (Kept s) ⟨h.beginPass, rfl, rfl⟩ ?_
  intro t ht y hy
  rw [Scan.rowOrder, Scan.mem_directed, List.mem_range] at hy
  have hyt : y < t.grid.height := by
    rw [ht.2.2]
    exact hy
  exact ⟨visitRow_eq hb ht.1 hyt, ht.run (Scan.visitRow_run hyt)⟩

theorem applyWrite_eq {w : Write} (hw : w.Fits s.grid.size) :
    applyWrite s w = some (s.apply w) := by
  cases w with
  | set i id =>
    rw [applyWrite, put_eq hw]
    rfl
  | exchange source target moving displaced =>
    have hsource : source.toNat < (s.put target.toNat moving).grid.size := hw.1
    simp only [applyWrite, Scene.apply, cell_eq hw.1, cell_eq hw.2, put_eq hw.2, put_eq hsource,
      Option.bind_eq_bind, Option.bind_some]
    split_ifs <;> rfl

theorem applyAll_eq {ws : List Write} (hws : ∀ w ∈ ws, w.Fits s.grid.size) :
    applyAll s ws = some (s.applyAll ws) := by
  refine foldlM_eq_some (fun x => s.SameSize x.2) ⟨rfl, rfl⟩ ?_
  rintro ⟨n, t⟩ ht w hw
  have hfits : w.Fits t.grid.size := by
    rw [ht.size]
    exact hws w hw
  have hsize := Scene.sameSize_apply t w
  refine ⟨?_, hsize.1.trans ht.1, hsize.2.trans ht.2⟩
  simp only [applyWrite_eq hfits]
  rfl

theorem runPass_eq (hb : WellMade b) (h : s.Sound) :
    runPass b hs pass s = some (Scan.runPass b hs pass s) := by
  have hscan := h.scan b hs pass
  have hflush : applyAll (Scan.scan b hs pass s).dropPass
      (Scan.scan b hs pass s).pending.pass.toList = some (Scan.scan b hs pass s).flushPass :=
    applyAll_eq fun w hw => hscan.pass w (Array.mem_def.mpr hw)
  have hrows : (Scan.rowOrder pass s.beginPass.grid.height).foldlM (visitRow b hs pass) s.beginPass
      = some (Scan.scan b hs pass s) := scan_eq hb h
  rw [runPass, beginPass_eq h, Scan.runPass_eq]
  simp only [Option.bind_eq_bind, Option.bind_some, hrows, hflush]
  rfl

theorem flushTick_eq (h : s.Sound) :
    applyAll s.dropTick s.pending.tick.toList = some s.flushTick :=
  applyAll_eq fun w hw => h.tick w (Array.mem_def.mpr hw)

theorem tick_eq (hb : WellMade b) (h : s.Sound) : tick b hs s = some (World.tick b hs s) := by
  have hrising := h.beginTick.runPass b hs .rising
  have hpasses : (Scene.afterPasses b hs s).Sound := hrising.runPass b hs .falling
  have hfalling : runPass b hs .falling (Scan.runPass b hs .rising (World.beginTick s))
      = some (Scene.afterPasses b hs s) := runPass_eq hb hrising
  rw [tick, runPass_eq hb h.beginTick, Scene.tick_eq]
  simp only [Option.bind_eq_bind, Option.bind_some, hfalling]
  generalize Scene.afterPasses b hs s = t at hpasses ⊢
  have hcount := hpasses.flushTick.alike (Scene.alike_countWritten _)
  rw [flushTick_eq hpasses]
  simp only [Option.bind_some, updateActivity_eq (covers hcount)]
  rfl

end

/-! Worlds. -/

section

variable {b : RuleBook} {w : World}

theorem paint_discCells (g : Grid) (cx cy radius : Int32) (id : MaterialId) :
    (World.discCells g cx cy radius).foldlM (paint id) g
      = some ((World.discCells g cx cy radius).foldl
        (fun g (x, y) => g.set (g.index x y) id) g) := by
  refine foldlM_eq_some (fun h => h.width = g.width ∧ h.height = g.height) ⟨rfl, rfl⟩ ?_
  rintro h ⟨hw, hh⟩ ⟨x, y⟩ hxy
  obtain ⟨⟨hx, hy⟩, -⟩ := World.mem_discCells.mp hxy
  exact ⟨setCell_eq (Grid.index_lt (hw ▸ hx) (hh ▸ hy)) id, hw, hh⟩

theorem fillDisc_eq (w : World) (cx cy radius : Int32) (id : MaterialId) :
    fillDisc w cx cy radius id = some (w.fillDisc cx cy radius id).2 := by
  simp only [fillDisc, World.fillDisc, paint_discCells, wakeDisc_eq, Option.bind_eq_bind,
    Option.bind_some]
  split_ifs <;> rfl

theorem settle_eq (s : Scene) : settle s = some (World.settle s) := by
  rw [settle, wakeAll_eq]
  rfl

theorem restore_eq (h : w.scene.Sound) {s : Snapshot} (hs : s.Sized) :
    restore w s = some (w.restore s) := by
  have hfit : copyGrid (fitGrid w.scene.grid s.width s.height) s.cells
      = some (.ofList s.width s.height s.cells) := by
    unfold fitGrid
    split_ifs with hsame
    · obtain ⟨hw, hh⟩ := hsame
      rw [copyGrid, ← hw, ← hh]
      exact if_pos (by rw [hs.cells, hw, hh]; rfl)
    · exact if_pos hs.cells
  have hchunks : (if s.width = w.scene.grid.width ∧ s.height = w.scene.grid.height then
      w.scene.chunks else w.scene.chunks.resize s.width s.height)
        = World.fitChunks w.scene.chunks s.width s.height := by
    rw [World.fitChunks, h.width, h.height]
  rw [restore]
  simp only [hfit, hchunks, settle_eq, Option.bind_eq_bind, Option.bind_some]
  rfl

theorem obey_eq (hb : WellMade b) (h : w.Rested b) (command : Command) :
    obey w command = some (w.obey command) := by
  obtain ⟨rfl, hsound, -⟩ := h
  cases command with
  | set x y id =>
    rw [obey, place_eq]
    rfl
  | fillDisc cx cy radius id => exact fillDisc_eq w cx cy radius id
  | clear =>
    rw [obey, clear, wakeAll_eq]
    rfl
  | step =>
    rw [obey, step, tick_eq hb hsound]
    rfl
  | load bytes =>
    simp only [obey, load, World.obey, World.afterLoad, World.loadHere_run]
    cases hdecode : Snapshot.decode bytes with
    | error e => rfl
    | ok s =>
      cases hunknown : World.firstUnknown? w.book s.cells with
      | some e => simp [hunknown]
      | none =>
        simp only [hunknown]
        exact restore_eq hsound (Snapshot.decode_sized hdecode)
  | reset seed =>
    rw [obey, reset, settle_eq]
    rfl
  | setSleeping enabled =>
    rw [obey, setSleepingEnabled_eq]
    rfl
  | enablePerf enabled => rfl
  | enableTrace enabled => rfl
  | bind key h => rfl
  | collectDirty => rfl

end

theorem run_eq {b : RuleBook} (hb : WellMade b) (commands : List Command) {w : World}
    (h : w.Rested b) :
    run w commands = some (commands.foldl World.obey w) :=
  foldlM_eq_some (fun w => w.Rested b) h fun _ ht command _ =>
    ⟨obey_eq hb ht command, ht.obey command⟩

end Checked

/-- Whatever is asked of a world of a compiled book, no access is out of range and no number of a
cell loses bits: the checked program runs to its end, and ends where the unchecked one does. -/
theorem World.every_access_in_range {c : Catalog} {b : RuleBook} {w : World}
    (hb : RuleBook.compile c = .ok b) (hw : World.Reached b w) (commands : List Command) :
    Checked.run w commands = some (commands.foldl World.obey w) := by
  have hreads := RuleBook.reads_of_compile hb
  exact Checked.run_eq (fun _ _ _ hr => hreads.wellFormed hr) commands hw.rested

/-- Sand is poured, stirred, saved over by a file of other dimensions and stepped again. -/
theorem World.every_access_in_range_poured :
    ∃ b w, RuleBook.compile Catalog.builtin = .ok b ∧ World.Reached b w ∧
      Checked.run w [.fillDisc 1 1 1 Catalog.Builtin.sand, .enableTrace true, .step,
        .load [83, 65, 78, 68, 1, 2, 0, 1, 0, 3, 0], .step]
        = some ([Command.fillDisc 1 1 1 Catalog.Builtin.sand, .enableTrace true, .step,
          .load [83, 65, 78, 68, 1, 2, 0, 1, 0, 3, 0], .step].foldl World.obey w) := by
  obtain ⟨b, hb⟩ := RuleBook.compile_builtin
  have hcreate : ∃ w, World.create { width := 4, height := 4, seed := 7 } b = .ok w := ⟨_, rfl⟩
  obtain ⟨w, hw⟩ := hcreate
  exact ⟨b, w, hb, .create hw, World.every_access_in_range hb (.create hw) _⟩

end Sandfall
