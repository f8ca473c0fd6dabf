import Sandfall.Proofs.Awake
import Sandfall.Proofs.Immobile
import Sandfall.Proofs.Lasting

/-! Passing over sleeping chunks. If no cell of an inactive chunk can act, a tick does what a plain
one does that visits every cell of every row. A write into an inactive chunk wakes it, so while the
scan goes on no cell of an inactive chunk ever becomes able to act: to visit such a chunk or to pass
over it is the same, whichever way the scan goes. -/

namespace Sandfall

namespace Scan

/-- A row, cell by cell in a drawn direction, whichever chunks are active. -/
def sweepRow (b : RuleBook) (hs : Handlers) (pass : Pass) (s : Scene) (y : Nat) : Scene :=
  let (right, s) := s.chance .half
  (directed right (List.range s.grid.width)).foldl (visitCell b hs pass y) s

def sweep (b : RuleBook) (hs : Handlers) (pass : Pass) (s : Scene) : Scene :=
  let s := s.beginPass
  let s := (rowOrder pass s.grid.height).foldl (sweepRow b hs pass) s
  countWritten s.flushPass

end Scan

namespace World

/-- A tick that knows nothing of active chunks. -/
def plainTick (b : RuleBook) (hs : Handlers) (s : Scene) : Scene :=
  let s := beginTick s
  let s := Scan.sweep b hs .rising s
  let s := Scan.sweep b hs .falling s
  Scan.countWritten s.flushTick

def plainStep (w : World) : World :=
  { w with scene := plainTick w.book w.handlers w.scene, steps := w.steps + 1 }

end World

/-- A cell that holds the material never acts. -/
def RuleBook.Inert (b : RuleBook) (hs : Handlers) (id : MaterialId) : Prop :=
  id = MaterialId.empty ∨ (b.isSpecial id = false ∧ ∀ pass, b.rules pass id = []) ∨
    (b.isSpecial id = true ∧ hs.get id = none)

/-- The map after a tick in which nothing acts. -/
def Chunks.idle (g : Grid) (keepsAwake : MaterialId → Bool) (c : Chunks) : Chunks :=
  c.beginTick.beginPass.beginPass.updateActivity g keepsAwake

/-- No cell of an inactive chunk can act. -/
def Scene.Dozes (b : RuleBook) (hs : Handlers) (s : Scene) : Prop :=
  ∀ x y, x < s.grid.width → y < s.grid.height →
    s.chunks.isActive (s.chunks.ofCell x y) = false → b.Inert hs (s.grid.cell (s.grid.index x y))

namespace Scene

/-- The chunk of a cell that is written is active then, and what the others hold stays. -/
theorem lasts_dozes (b : RuleBook) (hs : Handlers) : Lasts fun g c => ∀ x y, x < g.width →
    y < g.height → c.isActive (c.ofCell x y) = false → b.Inert hs (g.cell (g.index x y)) where
  aside h _ _ _ := h
  touch := by
    intro s x y hsound hx hy h id x' y' hx' hy' hidle
    rw [Chunks.touchCell, (Chunks.sameStamps_touch _ _).ofCell, Chunks.isActive_touch,
      Bool.or_eq_false_iff] at hidle
    obtain ⟨hother, hbefore⟩ := hidle
    -- were this the cell written, its chunk would be active now
    have hne : s.grid.index x y ≠ s.grid.index x' y' := by
      intro hindex
      obtain ⟨rfl, rfl⟩ := Grid.index_inj hx hx' hindex
      have hin : s.chunks.ofCell x y < s.chunks.count :=
        Chunks.ofCell_lt (hsound.width ▸ hx) (hsound.height ▸ hy)
      exact of_decide_eq_false hother ⟨rfl, hin⟩
    have hkeep := Grid.cell_set_of_ne s.grid hne id
    change b.Inert hs ((s.grid.set (s.grid.index x y) id).cell (s.grid.index x' y'))
    rw [hkeep]
    exact h x' y' hx' hy' hbefore

variable {b : RuleBook} {hs : Handlers} {pass : Pass} {s t : Scene}

theorem Dozes.alike (h : s.Dozes b hs) (hst : s.Alike t) : t.Dozes b hs := by
  rw [Dozes, hst.grid, hst.chunks]
  exact h

theorem Dozes.beginPass (h : s.Dozes b hs) : s.beginPass.Dozes b hs := h

theorem Dozes.beginTick (h : s.Dozes b hs) : (World.beginTick s).Dozes b hs := h

theorem Run.dozes {ds : List Deed} (h : s.Run b hs pass ds t) (hsound : s.Sound)
    (hdoze : s.Dozes b hs) : t.Dozes b hs :=
  (lasts_dozes b hs).run h hsound hdoze

theorem foldl_eq_self {α : Type} {step : Scene → α → Scene} {xs : List α}
    (h : ∀ x ∈ xs, step s x = s) : xs.foldl step s = s := by
  induction xs with
  | nil => rfl
  | cons x xs ih =>
    rw [List.foldl_cons, h x (List.mem_cons_self ..)]
    exact ih fun y hy => h y (List.mem_cons_of_mem _ hy)

theorem Run.foldl_congr {α : Type} {step step' : Scene → α → Scene} {xs : List α} {s : Scene}
    (b : RuleBook) (hs : Handlers) (pass : Pass)
    (hrun : ∀ t, s.SameSize t → ∀ x ∈ xs, ∃ ds, t.Run b hs pass ds (step t x))
    (heq : ∀ t ds, s.Run b hs pass ds t → ∀ x ∈ xs, step t x = step' t x) :
    xs.foldl step s = xs.foldl step' s := by
  induction xs generalizing s with
  | nil => rfl
  | cons x xs ih =>
    obtain ⟨ds, hx⟩ := hrun s ⟨rfl, rfl⟩ x (List.mem_cons_self ..)
    rw [List.foldl_cons, List.foldl_cons, ← heq s [] (.nil s) x (List.mem_cons_self ..)]
    refine ih ?_ ?_
    · intro t hst y hy
      exact hrun t ⟨hst.1.trans hx.sameSize.1, hst.2.trans hx.sameSize.2⟩ y
        (List.mem_cons_of_mem _ hy)
    · intro t es ht y hy
      exact heq t _ (hx.trans ht) y (List.mem_cons_of_mem _ hy)

end Scene

namespace Scan

variable {b : RuleBook} {hs : Handlers} {pass : Pass} {s : Scene}

theorem flatMap_columns (width : Nat) :
    (List.range (Chunks.along width)).flatMap (columns width) = List.range width := by
  have hfirst : ∀ k, (List.range k).flatMap (columns width)
      = List.range (min (k * Chunks.edge) width) := by
    intro k
    induction k with
    | zero => simp
    | succ k ih =>
      rw [List.range_succ, List.flatMap_append, ih, List.flatMap_singleton, columns, Nat.succ_mul]
      -- the edge of the grid may cut the last chunk, and there is nothing behind it
      rcases Nat.le_total width (k * Chunks.edge) with hle | hle
      · rw [Nat.min_eq_right hle, Nat.min_eq_right (by omega), Nat.sub_eq_zero_of_le hle]
        simp
      · have hsplit : ∀ n m, List.range n ++ List.range' n m = List.range (n + m) := by
          intro n m
          rw [List.range_eq_range', List.range_eq_range', ← List.range'_append_1, Nat.zero_add]
        rw [Nat.min_eq_left hle, hsplit]
        congr 1
        omega
  rw [hfirst, Nat.min_eq_right]
  simp only [Chunks.along, Chunks.edge]
  omega

theorem directed_flatMap {α β : Type} (forward : Bool) (xs : List α) (f : α → List β) :
    directed forward (xs.flatMap f)
      = (directed forward xs).flatMap fun x => directed forward (f x) := by
  cases forward with
  | true => rfl
  | false => exact List.reverse_flatMap

theorem visitCell_of_inert {x y : Nat} (h : b.Inert hs (s.grid.cell (s.grid.index x y))) :
    visitCell b hs pass y s x = s := by
  rcases h with hempty | ⟨hplain, hnone⟩ | ⟨hspecial, hnone⟩
  · simp [visitCell, hempty]
  · simp [visitCell, hplain, runCell, hnone pass]
  · simp only [visitCell, hspecial, hnone, if_true]
    split_ifs
    · rfl
    · cases pass <;> rfl

/-- To pass over an inactive chunk is to visit its cells. -/
theorem visitChunk_eq (hdoze : s.Dozes b hs) {y : Nat} (hy : y < s.grid.height)
    (right : Bool) (cx : Nat) :
    visitChunk b hs pass y right s cx
      = (directed right (columns s.grid.width cx)).foldl (visitCell b hs pass y) s := by
  unfold visitChunk
  split_ifs with hactive
  · rfl
  · have hidle : ∀ x ∈ directed right (columns s.grid.width cx), visitCell b hs pass y s x = s := by
      intro x hx
      rw [mem_directed, columns, List.mem_range'_1] at hx
      apply visitCell_of_inert
      apply hdoze x y (by omega) hy
      have hchunk : x / Chunks.edge = cx := by
        simp only [Chunks.edge] at hx ⊢
        omega
      rw [Chunks.ofCell, hchunk]
      exact Bool.eq_false_of_not_eq_true hactive
    exact (Scene.foldl_eq_self hidle).symm

theorem visitRow_eq (hsound : s.Sound) (hdoze : s.Dozes b hs) {y : Nat} (hy : y < s.grid.height) :
    visitRow b hs pass s y = sweepRow b hs pass s y := by
  simp only [visitRow, sweepRow]
  have hdrawn := s.alike_chance .half
  generalize (s.chance .half).1 = right
  generalize (s.chance .half).2 = t at hdrawn
  have hdoze := hdoze.alike hdrawn
  have hsound := hsound.alike hdrawn
  rw [← hdrawn.grid] at hy
  calc
    _ = (directed right (List.range t.chunks.across)).foldl (fun u cx =>
          (directed right (columns t.grid.width cx)).foldl (visitCell b hs pass y) u) t := by
      -- a row is a run up to each of its chunks, so those that sleep when they are reached are inert
      apply Scene.Run.foldl_congr b hs pass
      · intro u hu cx _
        exact ⟨_, visitChunk_run (hu.2 ▸ hy)⟩
      · intro u ds hu cx _
        have hsize := hu.sameSize
        rw [visitChunk_eq (hu.dozes hsound hdoze) (hsize.2 ▸ hy), hsize.1]
    _ = _ := by
      rw [← List.foldl_flatMap, ← directed_flatMap, Chunks.across, hsound.width, flatMap_columns]

theorem runPass_eq_sweep (hsound : s.Sound) (hdoze : s.Dozes b hs) (pass : Pass) :
    runPass b hs pass s = sweep b hs pass s := by
  have hrows : scan b hs pass s
      = (rowOrder pass s.grid.height).foldl (sweepRow b hs pass) s.beginPass := by
    apply Scene.Run.foldl_congr b hs pass
    · intro t hst y hy
      rw [rowOrder, mem_directed, List.mem_range] at hy
      exact ⟨_, visitRow_run (hst.2 ▸ hy)⟩
    · intro t ds ht y hy
      rw [rowOrder, mem_directed, List.mem_range] at hy
      exact visitRow_eq (ht.sound hsound.beginPass) (ht.dozes hsound.beginPass hdoze.beginPass)
        (ht.sameSize.2 ▸ hy)
  rw [runPass_eq, hrows]
  rfl

end Scan

namespace Scene

variable {b : RuleBook} {hs : Handlers} {s : Scene}

theorem Dozes.runPass (h : s.Dozes b hs) (hsound : s.Sound) (pass : Pass) :
    (Scan.runPass b hs pass s).Dozes b hs :=
  (lasts_dozes b hs).runPass hsound b hs pass h

/-- What remains of a tick is to reckon which chunks may sleep. -/
theorem Dozes.tick_eq (h : s.Dozes b hs) (hsound : s.Sound) :
    World.tick b hs s = World.updateActivity b (World.plainTick b hs s) := by
  have hrising := Scan.runPass_eq_sweep hsound.beginTick h.beginTick .rising
  have hfalling := Scan.runPass_eq_sweep (hsound.beginTick.runPass b hs .rising)
    (h.beginTick.runPass hsound.beginTick .rising) .falling
  rw [Scene.tick_eq, afterPasses, hfalling, hrising]
  rfl

/-! Scenes at rest. -/

theorem alike_flushPass {s : Scene} (h : s.pending = .empty) : s.Alike s.flushPass.2 := by
  rw [flushPass_of_empty (congrArg Pending.pass h)]
  exact alike_refl s

theorem alike_flushTick {s : Scene} (h : s.pending = .empty) : s.Alike s.flushTick.2 := by
  rw [flushTick_of_empty (congrArg Pending.tick h)]
  exact alike_refl s

/-- No cell of the grid can act. -/
def Still (b : RuleBook) (hs : Handlers) (s : Scene) : Prop :=
  ∀ x y, x < s.grid.width → y < s.grid.height → b.Inert hs (s.grid.cell (s.grid.index x y))

namespace Still

variable {t : Scene}

theorem dozes (h : s.Still b hs) : s.Dozes b hs := fun x y hx hy _ => h x y hx hy

theorem of_grid (h : s.Still b hs) (hgrid : t.grid = s.grid) : t.Still b hs := by
  rw [Still, hgrid]
  exact h

theorem sweepRow (h : s.Still b hs) (pass : Pass) {y : Nat} (hy : y < s.grid.height) :
    Scan.sweepRow b hs pass s y = (s.chance .half).2 := by
  have hdrawn : (s.chance .half).2.Still b hs := h.of_grid rfl
  simp only [Scan.sweepRow]
  apply foldl_eq_self
  intro x hx
  rw [Scan.mem_directed, List.mem_range] at hx
  exact Scan.visitCell_of_inert (hdrawn x y hx hy)

theorem sweepRows (h : s.Still b hs) (pass : Pass) (ys : List Nat)
    (hys : ∀ y ∈ ys, y < s.grid.height) : s.Alike (ys.foldl (Scan.sweepRow b hs pass) s) := by
  induction ys generalizing s with
  | nil => exact alike_refl s
  | cons y ys ih =>
    obtain ⟨hy, hys⟩ := List.forall_mem_cons.mp hys
    rw [List.foldl_cons, h.sweepRow pass hy]
    exact (s.alike_chance .half).trans (ih (h.of_grid rfl) hys)

theorem sweep (h : s.Still b hs) (hpending : s.pending = .empty) (pass : Pass) :
    s.beginPass.Alike (Scan.sweep b hs pass s) := by
  have hbegun : s.beginPass.Still b hs := h.of_grid rfl
  have hrows := hbegun.sweepRows pass (Scan.rowOrder pass s.grid.height) <| by
    intro y hy
    rwa [Scan.rowOrder, Scan.mem_directed, List.mem_range] at hy
  have hflush := alike_flushPass (hrows.pending.trans hpending)
  exact hrows.trans (hflush.trans (alike_countWritten _))

theorem tick (h : s.Still b hs) (hsound : s.Sound) (hpending : s.pending = .empty) :
    (World.tick b hs s).grid = s.grid ∧
      (World.tick b hs s).chunks = Chunks.idle s.grid b.keepsAwake s.chunks := by
  have hbegun : (World.beginTick s).Still b hs := h.of_grid rfl
  have hrising := hbegun.sweep hpending .rising
  have hwaits := hrising.pending.trans hpending
  have hfalling := (hbegun.of_grid hrising.grid).sweep hwaits .falling
  have hflush := alike_flushTick (hfalling.pending.trans hwaits)
  have hplain : (Scan.sweep b hs .rising (World.beginTick s)).beginPass.Alike
      (World.plainTick b hs s) :=
    hfalling.trans (hflush.trans (alike_countWritten _))
  have hgrid : (World.plainTick b hs s).grid = s.grid := hplain.grid.trans hrising.grid
  have hchunks : (World.plainTick b hs s).chunks = s.chunks.beginTick.beginPass.beginPass :=
    hplain.chunks.trans (congrArg Chunks.beginPass hrising.chunks)
  rw [h.dozes.tick_eq hsound]
  generalize World.plainTick b hs s = t at hgrid hchunks
  refine ⟨hgrid, ?_⟩
  change t.chunks.updateActivity t.grid b.keepsAwake = _
  rw [hgrid, hchunks]
  rfl

end Still

end Scene

namespace World

variable {b : RuleBook} {w : World}

theorem Rested.stepMany_still (h : w.Rested b) (hstill : w.scene.Still b w.handlers) (n : Nat) :
    (w.stepMany n).scene.grid = w.scene.grid ∧
      (w.stepMany n).scene.chunks = (Chunks.idle w.scene.grid b.keepsAwake)^[n] w.scene.chunks := by
  induction n generalizing w with
  | zero => exact ⟨rfl, rfl⟩
  | succ n ih =>
    have htick := hstill.tick h.sound h.pending
    rw [← h.step_scene] at htick
    have hstep : w.step.scene.Still b w.step.handlers := by
      rw [step_handlers]
      exact hstill.of_grid htick.1
    have hrested : w.step.Rested b := h.obey .step
    obtain ⟨hgrid, hchunks⟩ := ih hrested hstep
    rw [htick.1] at hgrid hchunks
    rw [htick.2] at hchunks
    exact ⟨hgrid, hchunks⟩

/-- If no cell of an inactive chunk can act, a step does what a plain step does. -/
theorem skipping_is_unobservable (hw : Reached b w) (hdoze : w.scene.Dozes b w.handlers) :
    w.step.scene.grid = w.plainStep.scene.grid ∧
    w.step.scene.random = w.plainStep.scene.random ∧
    w.step.steps = w.plainStep.steps ∧
    w.step.scene.trace = w.plainStep.scene.trace ∧
    w.step.scene.tally = w.plainStep.scene.tally := by
  have hrested := hw.rested
  have htick := hdoze.tick_eq hrested.sound
  rw [← hrested.book] at htick
  have hscene : w.step.scene = updateActivity w.book w.plainStep.scene := by
    simpa only [step, plainStep] using htick
  have hsteps : w.step.steps = w.plainStep.steps := by
    simp only [step, plainStep]
  rw [hscene]
  generalize w.plainStep.scene = s
  exact ⟨rfl, rfl, hsteps, rfl, rfl⟩

/-- Thirty-three cells in a row, so that the last is a chunk of its own: a wall and a spring. -/
def springRow : Scene := paint (Scene.fresh 33 1 true 7) [(3, 1), (32, 4)]

theorem springRow_cell : ∀ x < 33, springRow.grid.cell x = 0 ∨ springRow.grid.cell x = 1 ∨
    (x / Chunks.edge = 1 ∧ springRow.grid.cell x = 4) := by
  decide +kernel

/-- Without its handler the spring does nothing, but it keeps its chunk awake. -/
theorem springRow_asleep : ∀ i < 2, ((Chunks.idle springRow.grid fun id =>
    (Catalog.fortress.get id).any Archetype.isSpecial)^[61] springRow.chunks).isActive i
      = decide (i = 1) := by
  decide +kernel

section

variable (hb : b.Reads Catalog.fortress)
include hb

theorem exists_springRow : ∃ w, Reached b w ∧ w.handlers = .none ∧ w.scene = springRow := by
  have hcheck : ({ width := 33, height := 1, seed := 7 } : Config).check = none := rfl
  apply exists_painted hcheck
  simp only [hb.known]
  decide +kernel

theorem inert_wall (hs : Handlers) : b.Inert hs 1 := by
  refine .inr (.inl ⟨(hb.special 1).trans rfl, fun pass => ?_⟩)
  rw [hb.rules]
  rfl

theorem inert_springRow {s : Scene} (hs : Handlers) (hgrid : s.grid = springRow.grid) {x y : Nat}
    (hx : x < s.grid.width) (hy : y < s.grid.height) :
    b.Inert hs (s.grid.cell (s.grid.index x y)) ∨
      (x / Chunks.edge = 1 ∧ y = 0 ∧ s.grid.cell (s.grid.index x y) = 4) := by
  rw [hgrid] at hx hy ⊢
  obtain rfl : y = 0 := Nat.lt_one_iff.mp hy
  have hindex : springRow.grid.index x 0 = x := by
    rw [Grid.index, Nat.zero_mul, Nat.zero_add]
  rw [hindex]
  rcases springRow_cell x hx with h | h | ⟨hlast, h⟩
  · exact .inl (.inl h)
  · exact .inl (h ▸ inert_wall hb hs)
  · exact .inr ⟨hlast, rfl, h⟩

/-- Without a handler the wall's chunk falls asleep and the spring's does not. -/
theorem stepMany_springRow (h : w.Rested b) (hnone : w.handlers = .none)
    (hscene : w.scene = springRow) : (w.stepMany 61).scene.grid = springRow.grid ∧
      ∀ i < 2, (w.stepMany 61).scene.chunks.isActive i = decide (i = 1) := by
  have hstill : w.scene.Still b w.handlers := by
    intro x y hx hy
    rcases inert_springRow hb w.handlers (hscene ▸ rfl) hx hy with h | ⟨-, -, h⟩
    · exact h
    · rw [h, hnone]
      exact .inr (.inr ⟨(hb.special 4).trans rfl, rfl⟩)
  have hkeeps : b.keepsAwake = fun id => (Catalog.fortress.get id).any Archetype.isSpecial :=
    funext hb.special
  obtain ⟨hgrid, hchunks⟩ := h.stepMany_still hstill 61
  rw [hscene] at hgrid hchunks
  rw [hkeeps] at hchunks
  refine ⟨hgrid, ?_⟩
  rw [hchunks]
  exact springRow_asleep

end

/-- The wall's chunk fell asleep before the spring was bound, and the spring's first brute goes into
it. -/
theorem skipping_is_unobservable_spring :
    ∃ b w, RuleBook.compile Catalog.fortress = .ok b ∧ Reached b w ∧
      w.scene.chunks.isActive 0 = false ∧ w.step.scene.grid = w.plainStep.scene.grid := by
  obtain ⟨b, hb⟩ := Catalog.compile_fortress
  have hreads := RuleBook.reads_of_compile hb
  obtain ⟨v, hv, hnone, hscene⟩ := exists_springRow hreads
  obtain ⟨hgrid, hactive⟩ := stepMany_springRow hreads hv.rested hnone hscene
  have hreached := hv.stepMany 61
  generalize v.stepMany 61 = u at hgrid hactive hreached
  refine ⟨b, u.obey (.bind "spring" (.emitter 2 .one)), hb, hreached.obey _,
    hactive 0 (by decide), (skipping_is_unobservable (hreached.obey _) ?_).1⟩
  intro x y hx hy hidle
  rcases inert_springRow hreads _ hgrid hx hy with h | ⟨hlast, rfl, -⟩
  · exact h
  · have hchunk : u.scene.chunks.ofCell x 0 = 1 := by
      rw [Chunks.ofCell, hlast, Nat.zero_div, Chunks.indexOf, Nat.zero_mul]
    change u.scene.chunks.isActive (u.scene.chunks.ofCell x 0) = false at hidle
    rw [hchunk, hactive 1 (by decide)] at hidle
    cases hidle

end World

end Sandfall
