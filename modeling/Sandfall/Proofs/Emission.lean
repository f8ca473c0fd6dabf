import Sandfall.Proofs.Immobile
import Sandfall.Proofs.Tallies

/-! Emission. If all a book does is to move and all handlers are emitters, the number of cells with
a label changes only when an emitter fills an empty cell. It does so at most once when it is called,
and every call is counted. An exchange that waits may have claimed the cell it fills, but it lands
whole or not at all, so nothing is lost. -/

namespace Sandfall

namespace Handlers

def OnlyEmit (hs : Handlers) : Prop :=
  ∀ id h, hs.get id = some h → ∃ material chance, h = .emitter material chance

def Emits (hs : Handlers) (m : MaterialId) : Prop :=
  ∃ id chance, hs.get id = some (.emitter m chance)

theorem get_none (id : MaterialId) : none.get id = Option.none := Vector.getElem_replicate _

end Handlers

namespace Grid

theorem count_eq (g : Grid) (m : MaterialId) : g.count m = g.labelled id m := by
  have hstep : ∀ (n : Nat) (c : MaterialId),
      (if c = m then n + 1 else n) = n + if decide (id c = m) then 1 else 0 := by
    intro n c
    by_cases hc : c = m <;> simp [hc]
  rw [count, ← Vector.foldl_toList, foldl_countP hstep, Nat.zero_add]
  rfl

theorem nonEmpty_eq (g : Grid) :
    g.nonEmpty = g.labelled (fun c => decide (c = MaterialId.empty)) false := by
  have hstep : ∀ (n : Nat) (c : MaterialId), (if c = MaterialId.empty then n else n + 1)
      = n + if decide (decide (c = MaterialId.empty) = false) then 1 else 0 := by
    intro n c
    by_cases hc : c = MaterialId.empty <;> simp [hc]
  rw [nonEmpty, ← Vector.foldl_toList, foldl_countP hstep, Nat.zero_add]
  rfl

end Grid

theorem RuleBook.OnlyMoves.maintains_exchanges {b : RuleBook} (hmoves : b.OnlyMoves)
    (hs : Handlers) : b.Maintains hs (fun _ => True) Write.IsExchange where
  rewrite _ _ _ hr hd := absurd hd (hmoves.not_rewrite hr)
  move _ _ _ _ _ := ⟨trivial, trivial⟩
  place _ _ _ _ _ := trivial
  landed _ _ _ := trivial
  exchanged _ _ _ _ := trivial

/-- An emitter draws, and may then fill an empty cell. -/
theorem Handler.emit_cases (b : RuleBook) (p : Post) (material : MaterialId) (chance : Binary32)
    (s : Scene) : ∃ t, s.Alike t ∧ t.tally = s.tally ∧ (emit b p material chance s = t ∨
      ∃ i < t.grid.size, t.grid.cell i = MaterialId.empty ∧
        emit b p material chance s = t.put i material) := by
  have hst := s.alike_unit
  have htu := Scene.alike_below s.unit.2 4
  simp only [emit]
  split_ifs
  · exact ⟨_, hst, rfl, .inl rfl⟩
  · refine ⟨_, hst.trans htu, rfl, ?_⟩
    generalize hfind : List.find? _ _ = found
    cases found with
    | none => exact .inl rfl
    | some place =>
      simp only [Scene.place]
      split_ifs with hin
      · rw [Bool.and_eq_true] at hin
        have hempty := List.find?_some hfind
        refine .inr ⟨_, Grid.index_lt_of_inBounds hin.1, ?_, rfl⟩
        simpa [Scene.isEmptyAt, Grid.get, hin.1] using hempty
      · exact .inl rfl

variable {α : Type} [DecidableEq α] {f : MaterialId → α} {l : α}

/-- From one scene to the other, the number of cells with a label has changed only by what handlers
emit, and by no more than they have been called. -/
def Scene.Gains (hs : Handlers) (f : MaterialId → α) (l : α) (s t : Scene) : Prop :=
  ∃ n, t.grid.labelled f l = s.grid.labelled f l + n ∧ s.tally.handled + n ≤ t.tally.handled ∧
    (0 < n → ∃ m, hs.Emits m ∧ f m = l)

namespace Scene

variable {b : RuleBook} {hs : Handlers} {pass : Pass} {s t u : Scene}

namespace Gains

theorem of_kept (hcells : t.grid.labelled f l = s.grid.labelled f l)
    (hhandled : t.tally.handled = s.tally.handled) : Gains hs f l s t :=
  ⟨0, hcells, Nat.le_of_eq hhandled.symm, fun h => absurd h (Nat.lt_irrefl 0)⟩

theorem trans (h : Gains hs f l s t) (h' : Gains hs f l t u) : Gains hs f l s u := by
  obtain ⟨m, hm, hmcalls, hmemits⟩ := h
  obtain ⟨n, hn, hncalls, hnemits⟩ := h'
  refine ⟨m + n, by omega, by omega, fun hpos => ?_⟩
  rcases Nat.eq_zero_or_pos m with hzero | hm
  · exact hnemits (by omega)
  · exact hmemits hm

theorem countWritten (x : Nat × Scene) : Gains hs f l x.2 (Scan.countWritten x) := of_kept rfl rfl

theorem updateActivity (b : RuleBook) (s : Scene) : Gains hs f l s (World.updateActivity b s) :=
  of_kept rfl rfl

end Gains

theorem Upholds.stocked (h : s.Upholds (fun _ => True) Write.IsExchange) :
    s.Stocked f fun l => s.grid.labelled f l :=
  ⟨h.sound, h.pass, h.tick, fun _ => rfl⟩

section

variable (hmoves : b.OnlyMoves)
include hmoves

theorem Upholds.gains_runCell (h : s.Upholds (fun _ => True) Write.IsExchange) {x y : Nat}
    (hx : x < s.grid.width) (hy : y < s.grid.height)
    (hfree : s.isStamped (s.grid.index x y) = false) :
    Gains hs f l s (runCell b pass x y s).2 := by
  have hkeeps := (hmoves.keepsLabels f).maintains Handlers.get_none fun l => s.grid.labelled f l
  have hrun : s.Run b .none pass _ (runCell b pass x y s).2 := runCell_run hx hy hfree
  have hturn := hrun.upholds hkeeps h.stocked.upholds
  obtain ⟨visited, attempted, fired, -, -, htally⟩ := runCell_tally b pass x y s
  exact .of_kept (hturn.cells l) (by rw [htally])

theorem Upholds.gains_flushPass (h : s.Upholds (fun _ => True) Write.IsExchange) :
    Gains hs f l s s.flushPass.2 := by
  have hkeeps := (hmoves.keepsLabels f).maintains Handlers.get_none fun l => s.grid.labelled f l
  have hflush := h.stocked.upholds.flushPass hkeeps
  exact .of_kept (hflush.cells l) (by rw [flushPass_tally])

theorem Upholds.gains_flushTick (h : s.Upholds (fun _ => True) Write.IsExchange) :
    Gains hs f l s s.flushTick.2 := by
  have hkeeps := (hmoves.keepsLabels f).maintains Handlers.get_none fun l => s.grid.labelled f l
  have hflush := h.stocked.upholds.flushTick hkeeps
  exact .of_kept (hflush.cells l) (by rw [flushTick_tally])

end

/-- A call of an emitter fills at most one cell, which was empty. -/
theorem gains_emit {material : MaterialId} (hemits : hs.Emits material)
    (hempty : f MaterialId.empty ≠ l) (p : Post) (chance : Binary32) :
    Gains hs f l s (Handler.emit b p material chance s).countHandled := by
  obtain ⟨t, hst, htally, hidle | ⟨i, hi, hcell, hfill⟩⟩ := Handler.emit_cases b p material chance s
  · rw [hidle]
    refine ⟨0, ?_, ?_, fun h => absurd h (Nat.lt_irrefl 0)⟩
    · exact congrArg (Grid.labelled f l) hst.grid
    · simp [countHandled, htally]
  · have hset := Grid.labelled_set (f := f) (l := l) hi material
    rw [hcell, if_neg hempty, hst.grid] at hset
    rw [hfill]
    refine ⟨if f material = l then 1 else 0, ?_, ?_, fun hpos => ⟨material, hemits, ?_⟩⟩
    · simpa [countHandled, hst.grid] using hset
    · simp only [countHandled, put_tally, htally]
      split_ifs <;> omega
    · by_contra hne
      rw [if_neg hne] at hpos
      exact Nat.lt_irrefl 0 hpos

section

variable (hmoves : b.OnlyMoves) (hemit : hs.OnlyEmit) (hempty : f MaterialId.empty ≠ l)
include hmoves hemit hempty

theorem Upholds.gains_visitCell (h : s.Upholds (fun _ => True) Write.IsExchange) {x y : Nat}
    (hx : x < s.grid.width) (hy : y < s.grid.height) :
    Gains hs f l s (Scan.visitCell b hs pass y s x) := by
  simp only [Scan.visitCell]
  split_ifs with hskip hspecial
  · exact .of_kept rfl rfl
  · cases pass with
    | rising => exact .of_kept rfl rfl
    | falling =>
      cases hget : hs.get (s.grid.cell (s.grid.index x y)) with
      | none => exact .of_kept rfl rfl
      | some handler =>
        obtain ⟨material, chance, rfl⟩ := hemit _ _ hget
        exact gains_emit ⟨_, _, hget⟩ hempty _ chance
  · push Not at hskip
    exact h.gains_runCell hmoves hx hy (by simpa using hskip.2)

/-- What a scan has gained so far, with only exchanges waiting, lasts through its visits. -/
theorem keeps_gains (pass : Pass) (s : Scene) : Scan.Keeps b hs pass fun t =>
    t.Upholds (fun _ => True) Write.IsExchange ∧ Gains hs f l s t where
  draw p h := ⟨h.1.alike (alike_chance _ p), h.2.trans (.of_kept rfl rfl)⟩
  visit hx hy h :=
    ⟨(Scan.visitCell_run hx hy).upholds (hmoves.maintains_exchanges hs) h.1,
      h.2.trans (h.1.gains_visitCell hmoves hemit hempty hx hy)⟩

theorem Upholds.gains_runPass (h : s.Upholds (fun _ => True) Write.IsExchange) (pass : Pass) :
    Gains hs f l s (Scan.runPass b hs pass s) := by
  have hbegun : Gains hs f l s s.beginPass := .of_kept rfl rfl
  obtain ⟨hscan, hgains⟩ :=
    (keeps_gains hmoves hemit hempty pass s).scan ⟨h.beginPass, hbegun⟩
  rw [Scan.runPass_eq]
  exact (hgains.trans (hscan.gains_flushPass hmoves)).trans (.countWritten _)

theorem Upholds.gains_tick (h : s.Upholds (fun _ => True) Write.IsExchange) :
    Gains hs f l (World.beginTick s) (World.tick b hs s) := by
  have hkeeps := hmoves.maintains_exchanges hs
  have hbegun := h.beginTick
  have hrising := hbegun.gains_runPass hmoves hemit hempty .rising
  have hfalling := (hbegun.runPass hkeeps .rising).gains_runPass hmoves hemit hempty .falling
  have hpasses : Gains hs f l (World.beginTick s) (Scene.afterPasses b hs s) :=
    hrising.trans hfalling
  have hflush : Gains hs f l (Scene.afterPasses b hs s) (Scene.afterPasses b hs s).flushTick.2 :=
    (h.afterPasses hkeeps).gains_flushTick hmoves
  rw [tick_eq]
  exact ((hpasses.trans hflush).trans (.countWritten _)).trans (.updateActivity b _)

end

end Scene

namespace Catalog

/-- Beside the drifters, a spring. -/
def springs : Catalog := drifters.define 4 { name := "spring", color := 0, spawner := true }

theorem springs_get {m : MaterialId} {a : Archetype} (h : springs.get m = some a) :
    a.rules = [] ∨ ∃ name commit, a = drifter name commit := by
  rw [springs, get_define] at h
  split_ifs at h
  · cases h
    exact .inl rfl
  · exact .inr (drifters_get h)

theorem onlyMoves_springs {b : RuleBook} (hb : b.Reads springs) : b.OnlyMoves := by
  refine hb.onlyMoves fun m a ha u hu => ?_
  rcases springs_get ha with hnone | ⟨name, commit, rfl⟩
  · rw [hnone] at hu
    cases hu
  · cases List.mem_singleton.mp hu
    rfl

theorem compile_springs : ∃ b, RuleBook.compile springs = .ok b := by
  apply RuleBook.exists_compile
  intro id a ha r hr
  rcases springs_get ha with hnone | ⟨name, commit, rfl⟩
  · rw [hnone] at hr
    cases hr
  · cases List.mem_singleton.mp hr
    rfl

end Catalog

namespace World

variable {b : RuleBook} {w : World}

/-- Where all is moved and all handlers are emitters, a step leaves as many cells of any material as
there were, unless it is emitted, when it may leave more; and there are no more new cells that are
not empty than handlers have been called. -/
theorem emitters_never_destroy (hw : Reached b w) (hmoves : b.OnlyMoves)
    (hemit : w.handlers.OnlyEmit) :
    (∀ m, m ≠ MaterialId.empty → ¬ w.handlers.Emits m →
      w.step.scene.grid.count m = w.scene.grid.count m) ∧
    (∀ m, m ≠ MaterialId.empty → w.scene.grid.count m ≤ w.step.scene.grid.count m) ∧
    w.step.scene.grid.nonEmpty ≤ w.scene.grid.nonEmpty + w.step.scene.tally.handled := by
  have hrested := hw.rested
  have hexchanges := hrested.upholds (P := fun _ => True) trivial Write.IsExchange
  have hcount : ∀ m, m ≠ MaterialId.empty → ∃ n,
      w.step.scene.grid.count m = w.scene.grid.count m + n ∧ (0 < n → w.handlers.Emits m) := by
    intro m hm
    obtain ⟨n, hn, -, hpos⟩ := hexchanges.gains_tick (f := id) (l := m) hmoves hemit hm.symm
    rw [hrested.step_scene, Grid.count_eq, Grid.count_eq]
    refine ⟨n, hn, fun h => ?_⟩
    obtain ⟨m', hemits, rfl⟩ := hpos h
    exact hemits
  refine ⟨fun m hm hspared => ?_, fun m hm => ?_, ?_⟩
  · obtain ⟨n, hn, hpos⟩ := hcount m hm
    have hzero : n = 0 := Nat.eq_zero_of_not_pos fun h => hspared (hpos h)
    rw [hn, hzero, Nat.add_zero]
  · obtain ⟨n, hn, -⟩ := hcount m hm
    omega
  · obtain ⟨n, hn, hcalls, -⟩ := hexchanges.gains_tick (l := false)
      (f := fun c => decide (c = MaterialId.empty)) hmoves hemit (by decide)
    have hfresh : (beginTick w.scene).tally.handled = 0 := rfl
    rw [hrested.step_scene, Grid.nonEmpty_eq, Grid.nonEmpty_eq, hn]
    rw [hfresh] at hcalls
    change w.scene.grid.labelled _ false + n ≤ w.scene.grid.labelled _ false + _
    omega

/-- A spring of drifters that move at the end of the pass, among drifters of all kinds: it is called
once and the row has one cell more that is not empty. -/
theorem emitters_never_destroy_spring :
    ∃ b w, RuleBook.compile Catalog.springs = .ok b ∧ Reached b w ∧
      w = (paintedRow b [(0, 1), (2, 4), (4, 3)]).obey (.bind "spring" (.emitter 2 .one)) ∧
      w.step.scene.tally.handled = 1 ∧ w.step.scene.grid.nonEmpty = 4 ∧
      (∀ m, m ≠ MaterialId.empty → m ≠ 2 →
        w.step.scene.grid.count m = w.scene.grid.count m) ∧
      w.step.scene.grid.nonEmpty ≤ w.scene.grid.nonEmpty + w.step.scene.tally.handled := by
  obtain ⟨b, hb⟩ := Catalog.compile_springs
  have hmoves := Catalog.onlyMoves_springs (RuleBook.reads_of_compile hb)
  have hreached : Reached b ((paintedRow b [(0, 1), (2, 4), (4, 3)]).obey
      (.bind "spring" (.emitter 2 .one))) := (reached_paintedRow b _).obey _
  have hbound : ∀ id h, ((paintedRow b [(0, 1), (2, 4), (4, 3)]).obey
      (.bind "spring" (.emitter 2 .one))).handlers.get id = some h → h = .emitter 2 .one := by
    intro id h hget
    rcases Handlers.get_bind hget with rfl | hnone
    · rfl
    · rw [paintedRow_handlers] at hnone
      cases hnone
  have hstep := RuleBook.eq_of_compile hb (x := (1, 4)) (f := fun b =>
      (((paintedRow b [(0, 1), (2, 4), (4, 3)]).obey
          (.bind "spring" (.emitter 2 .one))).step.scene.tally.handled,
        ((paintedRow b [(0, 1), (2, 4), (4, 3)]).obey
          (.bind "spring" (.emitter 2 .one))).step.scene.grid.nonEmpty)) (by decide +kernel)
  rw [Prod.mk.injEq] at hstep
  obtain ⟨hkept, -, hrise⟩ := emitters_never_destroy hreached hmoves
    fun id h hget => ⟨2, .one, hbound id h hget⟩
  refine ⟨b, _, hb, hreached, rfl, hstep.1, hstep.2, fun m hm hother => hkept m hm ?_, hrise⟩
  rintro ⟨id, chance, hget⟩
  cases hbound id _ hget
  exact hother rfl

end World

end Sandfall
