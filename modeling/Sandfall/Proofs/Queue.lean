import Sandfall.Proofs.Landing
import Sandfall.Proofs.Conservation
import Sandfall.Proofs.Traced

/-! The queue of a pass. A move put off to the end of the pass stamps both its cells, and nothing
moves from or to a stamped cell. So if all a book does is to move, the exchanges that wait have no
cell in common and none is stale: they are ready to land. -/

namespace Sandfall

theorem Deed.ByRule.move_cell {s : Scene} {a : Actor} {r r' : CompiledRule} {source target : Nat}
    (hd : (Deed.move r' source target).ByRule s a r) (ha : a.Stands s) {i : Nat}
    (hi : s.isStamped i = true) :
    (s.move r' source target).grid.cell i = s.grid.cell i := by
  have hfree : ¬ (Deed.move r' source target).Moves i := by
    intro hmoves
    rw [Scene.Run.free_of_moves ha hd hmoves] at hi
    cases hi
  simp only [Deed.Moves, not_or] at hfree
  rw [Scene.move_grid, Scene.exchange_cell_of_ne s r'.commit (Ne.symm hfree.1) (Ne.symm hfree.2)]

namespace Scene

variable {s t : Scene}

theorem Sound.ofExchange_cells (h : s.Sound) {source target : Nat} (hs : source < s.grid.size)
    (ht : target < s.grid.size) (moving displaced : MaterialId) :
    (Write.ofExchange source target moving displaced).cells = [source, target] := by
  rw [Write.ofExchange, Write.cells, h.word hs, h.word ht]

/-- The exchanges that wait for the end of the pass are ready to land, and their cells stamped. -/
structure Pledged (s : Scene) : Prop where
  batch : s.Batch s.pending.pass.toList
  stamped : ∀ w ∈ s.pending.pass.toList, ∀ i ∈ w.cells, s.isStamped i = true

theorem pledged_of_empty (h : s.pending.pass = #[]) : s.Pledged := by
  refine ⟨⟨?_, ?_, ?_⟩, ?_⟩ <;> simp [h]

namespace Pledged

theorem of_same (h : s.Pledged) (hsize : s.SameSize t)
    (hpending : t.pending.pass = s.pending.pass)
    (hcell : ∀ i, s.isStamped i = true → t.grid.cell i = s.grid.cell i)
    (hstamped : ∀ i, s.isStamped i = true → t.isStamped i = true) : t.Pledged where
  batch := by
    rw [hpending]
    refine ⟨fun w hw => ?_, ?_, h.batch.apart⟩
    · exact (h.batch.current w hw).of_cells fun i hi => hcell i (h.stamped w hw i hi)
    · rw [hsize.size]
      exact h.batch.fits
  stamped := by
    rw [hpending]
    exact fun w hw i hi => hstamped i (h.stamped w hw i hi)

theorem alike (h : s.Pledged) (hst : s.Alike t) : t.Pledged := by
  refine h.of_same ⟨by rw [hst.grid], by rw [hst.grid]⟩ (by rw [hst.pending]) ?_ ?_
  · intro i _
    rw [hst.grid]
  · intro i hi
    rw [hst.isStamped, hi]

/-- An exchange of unstamped cells joins the queue, once its cells are stamped. -/
theorem concat (h : s.Pledged) (hsound : s.Sound) {source target : Nat}
    (hs : source < s.grid.size) (ht : target < s.grid.size) (hgrid : t.grid = s.grid)
    (hqueue : t.pending.pass.toList = s.pending.pass.toList ++
      [.ofExchange source target (s.grid.cell source) (s.grid.cell target)])
    (hfree : ∀ i ∈ [source, target], s.isStamped i = false)
    (hstamped : ∀ i, s.isStamped i = true ∨ i ∈ [source, target] → t.isStamped i = true) :
    t.Pledged := by
  have hcells := hsound.ofExchange_cells hs ht (s.grid.cell source) (s.grid.cell target)
  have hbatch : t.Batch s.pending.pass.toList :=
    ⟨by rw [hgrid]; exact h.batch.current, by rw [hgrid]; exact h.batch.fits, h.batch.apart⟩
  refine ⟨?_, ?_⟩
  · rw [hqueue]
    refine hbatch.concat ?_ ?_ ?_
    · rw [hgrid, Write.ofExchange, Write.Current, hsound.word hs, hsound.word ht]
      exact ⟨rfl, rfl⟩
    · rw [hgrid]
      exact hsound.fits_ofExchange hs ht _ _
    · -- what waits already has its cells stamped
      intro v hv i hi hiw
      have hstamp := h.stamped v hv i hi
      rw [hfree i (hcells ▸ hiw)] at hstamp
      cases hstamp
  · rw [hqueue]
    refine List.forall_mem_append.mpr ⟨?_, List.forall_mem_singleton.mpr ?_⟩
    · exact fun w hw i hi => hstamped i (.inl (h.stamped w hw i hi))
    · exact fun i hi => hstamped i (.inr (hcells ▸ hi))

/-- A move leaves the stamped cells alone, and if it joins the queue it stamps its own. -/
theorem move (h : s.Pledged) (hsound : s.Sound) {a : Actor} {r r' : CompiledRule}
    {source target : Nat} (ha : a.Stands s) (hd : (Deed.move r' source target).ByRule s a r) :
    (s.move r' source target).Pledged := by
  obtain ⟨hs, ht⟩ : source < s.grid.size ∧ target < s.grid.size := names_of_byRule ha hd
  have hstamped := hsound.enact_isStamped (d := .move r' source target) ⟨hs, ht⟩
  have hgrow : ∀ i, s.isStamped i = true → (s.move r' source target).isStamped i = true :=
    fun i hi => (hstamped i).mpr (.inl hi)
  have hsize := sameSize_move s r' source target
  cases hcommit : r'.commit with
  | immediate =>
    refine h.of_same hsize ?_ (fun i hi => hd.move_cell ha hi) hgrow
    rw [move_pending, hcommit]
    rfl
  | endOfTick =>
    refine h.of_same hsize ?_ (fun i hi => hd.move_cell ha hi) hgrow
    rw [move_pending, hcommit]
    rfl
  | endOfPass =>
    have hdeferred : r'.commit ≠ .immediate := by rw [hcommit]; exact nofun
    refine h.concat hsound hs ht ?_ ?_ ?_ ?_
    · rw [move_grid, hcommit]
      rfl
    · rw [move_pending, hcommit]
      exact Array.toList_push
    · intro i hi
      exact Run.free_of_moves ha hd (List.mem_pair.mp hi)
    · rintro i (hi | hi)
      · exact hgrow i hi
      · refine (hstamped i).mpr (.inr ?_)
        rcases List.mem_pair.mp hi with rfl | rfl
        · exact .inr ⟨rfl, hdeferred⟩
        · exact .inl ⟨rfl, .inr hdeferred⟩

end Pledged

variable {b : RuleBook} {hs : Handlers} {pass : Pass} {ds : List Deed}

theorem Run.pledged (hmoves : b.OnlyMoves) (hnone : ∀ id, hs.get id = none)
    (h : s.Run b hs pass ds t) (hsound : s.Sound) (hs : s.Pledged) : t.Pledged := by
  induction h with
  | nil => exact hs
  | quiet _ ha ih => exact ih.alike ha
  | @rule u ds a r d hrun hst hr hd ih =>
    cases d with
    | place i id => cases hd
    | rewrite r' i id => exact absurd hd (hmoves.not_rewrite hr)
    | move r' source target => exact ih.move (hrun.sound hsound) hst hd
  | place _ _ _ hget =>
    rw [hnone] at hget
    cases hget

end Scene

/-- The cells of a deed that waits for the end of the pass. -/
def Deed.queued? : Deed → Option (List Nat)
  | .place .. => none
  | .rewrite r i _ => if r.commit = .endOfPass then some [i] else none
  | .move r source target => if r.commit = .endOfPass then some [source, target] else none

namespace Scene

variable {b : RuleBook} {hs : Handlers} {pass : Pass} {s t : Scene} {ds : List Deed}

theorem Sound.enact_queue (h : s.Sound) {d : Deed} (hd : s.Names d) :
    (s.enact d).pending.pass.toList.map Write.cells
      = s.pending.pass.toList.map Write.cells ++ [d].filterMap Deed.queued? := by
  cases d with
  | place i id => simp [Scene.enact, Scene.put, Deed.queued?]
  | rewrite r i id =>
    have hword := h.word (show i < s.grid.size from hd)
    simp only [Scene.enact, Scene.write]
    cases hcommit : r.commit <;>
      simp [Scene.put, Pending.pushPass, Pending.pushTick, Write.ofSet, Write.cells, hword,
        Deed.queued?, hcommit]
  | move r source target =>
    have hs := h.word hd.1
    have ht := h.word hd.2
    simp only [Scene.enact, move_pending, Scene.exchange]
    cases hcommit : r.commit <;>
      simp [Scene.put, Pending.pushPass, Pending.pushTick, Write.ofExchange, Write.cells, hs, ht,
        Deed.queued?, hcommit]

theorem Run.queue (h : s.Run b hs pass ds t) (hsound : s.Sound) :
    t.pending.pass.toList.map Write.cells
      = s.pending.pass.toList.map Write.cells ++ ds.filterMap Deed.queued? := by
  induction h with
  | nil => simp
  | quiet _ ha ih => rw [ha.pending, ih]
  | rule hrun hst _ hd ih =>
    rw [(hrun.sound hsound).enact_queue (names_of_byRule hst hd), ih, List.append_assoc,
      ← List.filterMap_append]
  | place hrun _ _ _ hi _ _ ih =>
    rw [(hrun.sound hsound).enact_queue (d := .place _ _) hi, ih, List.append_assoc,
      ← List.filterMap_append]

end Scene

namespace World

variable {b : RuleBook} {w : World}

/-- A pass of the next step, up to where its queue is flushed. -/
def beforeFlush (w : World) (pass : Pass) : Scene :=
  Scan.scan w.book w.handlers pass (w.beforePass pass)

theorem Rested.beforePass_queue (h : w.Rested b) (pass : Pass) :
    (w.beforePass pass).pending.pass = #[] := by
  cases pass with
  | rising =>
    change w.scene.pending.pass = #[]
    rw [h.pending]
    rfl
  | falling =>
    change (Scan.runPass w.book w.handlers .rising (beginTick w.scene)).pending.pass = #[]
    rw [Scan.runPass_eq, (Scene.alike_countWritten _).pending, Scene.flushPass_pending]

/-- Where all is moved and no handler acts, every exchange that a pass has put off to its end is
applied there: each writes two cells and brings what it was to bring. In whatever order they are
applied, none is dropped, and the cells are the same. -/
theorem no_queued_move_is_lost (hw : Reached b w) (hmoves : b.OnlyMoves)
    (hnone : ∀ id, w.handlers.get id = none) (pass : Pass) :
    (w.beforeFlush pass).pending.pass.toList.map Write.cells
        = (w.passDeeds pass).filterMap Deed.queued? ∧
      (w.beforeFlush pass).flushPass.1 = 2 * (w.beforeFlush pass).pending.pass.size ∧
      (∀ v ∈ (w.beforeFlush pass).pending.pass,
        v.Landed (w.beforeFlush pass).flushPass.2.grid) ∧
      ∀ ws : List Write, ws.Perm (w.beforeFlush pass).pending.pass.toList →
        (∀ before v after, ws = before ++ v :: after →
          v.Current ((w.beforeFlush pass).dropPass.land before).grid) ∧
        ((w.beforeFlush pass).dropPass.applyAll ws).1 = 2 * ws.length ∧
        ((w.beforeFlush pass).dropPass.land ws).grid
          = (w.beforeFlush pass).flushPass.2.grid := by
  have hrested := hw.rested
  obtain rfl := hrested.book
  have hsound : (w.beforePass pass).beginPass.Sound :=
    (sound_beforePass hrested.sound pass).beginPass
  have hempty : (w.beforePass pass).beginPass.pending.pass = #[] := hrested.beforePass_queue pass
  have hrun := Scan.scan_run w.book w.handlers pass (w.beforePass pass)
  have hqueue := hrun.queue hsound
  rw [hempty] at hqueue
  have hpledged := hrun.pledged hmoves hnone hsound (Scene.pledged_of_empty hempty)
  have hbatch : (w.beforeFlush pass).dropPass.Batch (w.beforeFlush pass).pending.pass.toList :=
    ⟨hpledged.batch.current, hpledged.batch.fits, hpledged.batch.apart⟩
  refine ⟨hqueue, hbatch.applyAll, ?_, fun ws hperm => ⟨?_, (hbatch.perm hperm).applyAll, ?_⟩⟩
  · intro v hv
    rw [Scene.flushPass_snd]
    exact hbatch.landed v (Array.mem_toList_iff.mpr hv)
  · intro before v after hsplit
    have hrest := (hsplit ▸ hbatch.perm hperm).drop
    exact hrest.current v (List.mem_cons_self ..)
  · rw [Scene.flushPass_snd]
    exact hbatch.land_perm hperm

/-- Two drifters wait for the end of the falling pass, beside a third that moves only at the end of
the tick. Their exchanges may as well be applied the other way round. -/
theorem no_queued_move_is_lost_drifters :
    ∃ b w, RuleBook.compile Catalog.drifters = .ok b ∧
      w = paintedRow b [(0, 2), (2, 2), (4, 3)] ∧
      (w.beforeFlush .falling).pending.pass.size = 2 ∧ (w.beforeFlush .falling).flushPass.1 = 4 ∧
      ((w.beforeFlush .falling).dropPass.land
          (w.beforeFlush .falling).pending.pass.toList.reverse).grid
        = (w.beforeFlush .falling).flushPass.2.grid := by
  obtain ⟨b, hb⟩ := Catalog.compile_drifters
  have hmoves := Catalog.onlyMoves_drifters (RuleBook.reads_of_compile hb)
  have htwo : ((paintedRow b [(0, 2), (2, 2), (4, 3)]).beforeFlush .falling).pending.pass.size
      = 2 := by
    refine RuleBook.eq_of_compile hb (f := fun b =>
      ((paintedRow b [(0, 2), (2, 2), (4, 3)]).beforeFlush .falling).pending.pass.size) ?_
    decide +kernel
  obtain ⟨-, hflush, -, hany⟩ := no_queued_move_is_lost (reached_paintedRow b _) hmoves
    (paintedRow_handlers b [(0, 2), (2, 2), (4, 3)]) .falling
  obtain ⟨-, -, hland⟩ := hany _ (List.reverse_perm _)
  exact ⟨b, _, hb, rfl, htwo, by rw [hflush, htwo], hland⟩

end World

end Sandfall
