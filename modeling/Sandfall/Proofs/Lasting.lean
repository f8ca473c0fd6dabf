import Sandfall.Proofs.Sound

/-! What lasts through the passes of a tick. The passes change cells by writes alone, and a write
touches the chunk of its cell. So a property of the grid and its chunks that every write keeps, and
that looks neither at stamps nor at the counts of the tick, holds until activity is reckoned. -/

namespace Sandfall

theorem Grid.coords_index {g : Grid} {x y : Nat} (hx : x < g.width) (hy : y < UInt32.size) :
    g.coords (g.index x y) = (x, y) := by
  rw [coords, index, Nat.mul_comm, Nat.mul_add_mod, Nat.mod_eq_of_lt hx,
    Nat.mul_add_div (by omega), Nat.div_eq_of_lt hx, Nat.add_zero, Nat.mod_eq_of_lt hy]

theorem Grid.exists_index {g : Grid} {i : Nat} (hi : i < g.size) :
    ∃ x y, x < g.width ∧ y < g.height ∧ g.index x y = i := by
  have hwidth : 0 < g.width := Nat.pos_of_mul_pos_right (Nat.lt_of_le_of_lt (Nat.zero_le i) hi)
  refine ⟨i % g.width, i / g.width, Nat.mod_lt i hwidth, Nat.div_lt_of_lt_mul hi, ?_⟩
  rw [index, Nat.mul_comm]
  exact Nat.div_add_mod i g.width

namespace Scene

variable {s t : Scene}

theorem Sound.row_lt (h : s.Sound) {y : Nat} (hy : y < s.grid.height) : y < UInt32.size := by
  have hshort := h.short
  have hword : Config.maxDimension < UInt32.size := by decide
  omega

theorem Sound.put_index (h : s.Sound) {x y : Nat} (hx : x < s.grid.width) (hy : y < s.grid.height)
    (id : MaterialId) : s.put (s.grid.index x y) id = { s with
      grid := s.grid.set (s.grid.index x y) id
      chunks := s.chunks.touchCell x y } := by
  rw [Scene.put, Grid.coords_index hx (h.row_lt hy)]

/-- The property looks neither at stamps nor at the counts of a tick, and a write keeps it. -/
structure Lasts (P : Grid → Chunks → Prop) : Prop where
  aside : ∀ {g c}, P g c → ∀ stamps woke slept, P g { c with stamps, woke, slept }
  touch : ∀ {s : Scene} {x y : Nat}, s.Sound → x < s.grid.width → y < s.grid.height →
    P s.grid s.chunks → ∀ id, P (s.grid.set (s.grid.index x y) id) (s.chunks.touchCell x y)

namespace Lasts

variable {P : Grid → Chunks → Prop} (hP : Lasts P)
include hP

theorem put (hs : s.Sound) {i : Nat} (hi : i < s.grid.size) (id : MaterialId)
    (h : P s.grid s.chunks) : P (s.put i id).grid (s.put i id).chunks := by
  obtain ⟨x, y, hx, hy, rfl⟩ := Grid.exists_index hi
  rw [hs.put_index hx hy]
  exact hP.touch hs hx hy h id

theorem write (hs : s.Sound) (commit : Commit) {i : Nat} (hi : i < s.grid.size) (id : MaterialId)
    (h : P s.grid s.chunks) : P (s.write commit i id).grid (s.write commit i id).chunks := by
  cases commit with
  | immediate => exact hP.put hs hi id h
  | endOfPass => exact h
  | endOfTick => exact h

theorem exchange (hs : s.Sound) (commit : Commit) {source target : Nat}
    (hsource : source < s.grid.size) (htarget : target < s.grid.size) (h : P s.grid s.chunks) :
    P (s.exchange commit source target).grid (s.exchange commit source target).chunks := by
  cases commit with
  | immediate => exact hP.put (hs.put target _) hsource _ (hP.put hs htarget _ h)
  | endOfPass => exact h
  | endOfTick => exact h

theorem stamp (i : Nat) (h : P s.grid s.chunks) : P (s.stamp i).grid (s.stamp i).chunks :=
  hP.aside h _ _ _

theorem stampMove (r : CompiledRule) (source target : Nat) (h : P s.grid s.chunks) :
    P (s.stampMove r source target).grid (s.stampMove r source target).chunks := by
  simp only [Scene.stampMove]
  split_ifs
  · exact hP.stamp _ (hP.stamp _ h)
  · exact hP.stamp _ h
  · exact hP.stamp _ h
  · exact h

theorem enact (hs : s.Sound) {d : Deed} (hd : s.Names d) (h : P s.grid s.chunks) :
    P (s.enact d).grid (s.enact d).chunks := by
  cases d with
  | place i id => exact hP.put hs hd id h
  | rewrite r i id => exact hP.write hs r.commit hd id h
  | move r source target =>
    exact hP.stampMove r source target (hP.exchange hs r.commit hd.1 hd.2 h)

theorem run {b : RuleBook} {hs : Handlers} {pass : Pass} {ds : List Deed}
    (hrun : s.Run b hs pass ds t) (hsound : s.Sound) (h : P s.grid s.chunks) :
    P t.grid t.chunks := by
  induction hrun with
  | nil => exact h
  | quiet _ ha ih => rwa [ha.grid, ha.chunks]
  | rule hrun hst _ hd ih => exact hP.enact (hrun.sound hsound) (names_of_byRule hst hd) ih
  | place hrun _ _ _ hi _ _ ih => exact hP.enact (hrun.sound hsound) hi ih

theorem apply (hs : s.Sound) {w : Write} (hw : w.Fits s.grid.size) (h : P s.grid s.chunks) :
    P (s.apply w).2.grid (s.apply w).2.chunks := by
  cases w with
  | set i id => exact hP.put hs hw id h
  | exchange source target moving displaced =>
    simp only [Scene.apply]
    split_ifs
    · exact hP.put (hs.put _ moving) hw.1 displaced (hP.put hs hw.2 moving h)
    · exact h

theorem land (hs : s.Sound) {ws : List Write} (hws : ∀ w ∈ ws, w.Fits s.grid.size)
    (h : P s.grid s.chunks) : P (s.land ws).grid (s.land ws).chunks := by
  induction ws generalizing s with
  | nil => exact h
  | cons w ws ih =>
    obtain ⟨hw, hws⟩ := List.forall_mem_cons.mp hws
    refine ih (hs.apply w) (fun v hv => ?_) (hP.apply hs hw h)
    rw [(sameSize_apply s w).size]
    exact hws v hv

theorem flushPass (hs : s.Sound) (h : P s.grid s.chunks) :
    P s.flushPass.2.grid s.flushPass.2.chunks := by
  rw [flushPass_snd]
  exact hP.land hs.dropPass (fun w hw => hs.pass w (Array.mem_def.mpr hw)) h

theorem flushTick (hs : s.Sound) (h : P s.grid s.chunks) :
    P s.flushTick.2.grid s.flushTick.2.chunks := by
  rw [flushTick_snd]
  exact hP.land hs.dropTick (fun w hw => hs.tick w (Array.mem_def.mpr hw)) h

theorem runPass (hs : s.Sound) (b : RuleBook) (handlers : Handlers) (pass : Pass)
    (h : P s.grid s.chunks) :
    P (Scan.runPass b handlers pass s).grid (Scan.runPass b handlers pass s).chunks := by
  have hbegun : P s.beginPass.grid s.beginPass.chunks := hP.aside h _ _ _
  have hscan := hP.run (Scan.scan_run b handlers pass s) hs.beginPass hbegun
  exact hP.flushPass (hs.scan b handlers pass) hscan

/-- What is left of a tick then is to reckon activity. -/
theorem tick (hs : s.Sound) (b : RuleBook) (handlers : Handlers) (h : P s.grid s.chunks) :
    ∃ t : Scene, t.Sound ∧ P t.grid t.chunks ∧
      World.tick b handlers s = World.updateActivity b t := by
  have hbegun : P (World.beginTick s).grid (World.beginTick s).chunks := hP.aside h _ _ _
  have hrising := hP.runPass hs.beginTick b handlers .rising hbegun
  have hrisen := hs.beginTick.runPass b handlers .rising
  have hfallen : (afterPasses b handlers s).Sound := hrisen.runPass b handlers .falling
  have hfalling : P (afterPasses b handlers s).grid (afterPasses b handlers s).chunks :=
    hP.runPass hrisen b handlers .falling hrising
  rw [tick_eq]
  generalize afterPasses b handlers s = u at hfallen hfalling
  have hcount := alike_countWritten u.flushTick
  refine ⟨_, hfallen.flushTick.alike hcount, ?_, rfl⟩
  rw [hcount.grid, hcount.chunks]
  exact hP.flushTick hfallen hfalling

end Lasts

end Scene

end Sandfall
