import Sandfall.Proofs.Queue
import Sandfall.Proofs.Reconciled
import Sandfall.Proofs.Tallies

/-! The counters of a step. Passes and flushes only wake chunks, and only when activity is reckoned
do chunks fall asleep, each at most once. There are too few chunks for a count to reach its limit,
so the counts tell how the number of active chunks has changed. No rule fires and no cell is visited
without a rule being tried. And what a flush counts are the cells it puts. -/

namespace Sandfall

/-! Cells that are written. -/

namespace Write

instance (g : Grid) : (w : Write) → Decidable (w.Current g)
  | .set .. => .isFalse not_false
  | .exchange .. => inferInstanceAs (Decidable (_ ∧ _))

/-- The cells a write puts, one after the other: a set its own, and an exchange both of its own if
it is still current. -/
def landing (g : Grid) (w : Write) : List (Nat × MaterialId) :=
  match w with
  | .set i id => [(i.toNat, id)]
  | .exchange source target moving displaced =>
    if w.Current g then [(target.toNat, moving), (source.toNat, displaced)] else []

def isSet : Write → Bool
  | .set .. => true
  | .exchange .. => false

theorem length_landing (g : Grid) (w : Write) : (w.landing g).length
    = (if w.isSet then 1 else 0) + 2 * if w.Current g then 1 else 0 := by
  cases w with
  | set i id => rfl
  | exchange source target moving displaced =>
    simp only [landing, isSet, Bool.false_eq_true, if_false]
    split_ifs <;> rfl

end Write

namespace Scene

theorem apply_eq (s : Scene) (w : Write) :
    s.apply w = ((w.landing s.grid).length, World.paint s (w.landing s.grid)) := by
  cases w with
  | set i id => rfl
  | exchange source target moving displaced =>
    by_cases hcurrent : (Write.exchange source target moving displaced).Current s.grid
    · exact (if_pos hcurrent).trans (by rw [Write.landing, if_pos hcurrent]; rfl)
    · exact (if_neg hcurrent).trans (by rw [Write.landing, if_neg hcurrent]; rfl)

def landings (s : Scene) : List Write → List (Nat × MaterialId)
  | [] => []
  | w :: ws => w.landing s.grid ++ (s.apply w).2.landings ws

/-- How many exchanges of a queue are still current when their turn comes. -/
def currents (s : Scene) : List Write → Nat
  | [] => 0
  | w :: ws => (if w.Current s.grid then 1 else 0) + (s.apply w).2.currents ws

/-- The queue has been applied: so many cells have been put, one for each set and two for each
exchange that was still current. -/
structure Applied (s : Scene) (ws : List Write) (r : Nat × Scene) : Prop where
  scene : r.2 = World.paint s (s.landings ws)
  puts : r.1 = (s.landings ws).length
  kinds : r.1 = ws.countP Write.isSet + 2 * s.currents ws

theorem land_eq_paint (ws : List Write) (s : Scene) :
    s.land ws = World.paint s (s.landings ws) := by
  induction ws generalizing s with
  | nil => rfl
  | cons w ws ih =>
    rw [land_cons, ih, landings, World.paint, World.paint, List.foldl_append]
    exact congrArg (fun r : Nat × Scene => World.paint r.2 _) (apply_eq s w)

theorem applyAll_fst (ws : List Write) (s : Scene) :
    (s.applyAll ws).1 = (s.landings ws).length := by
  induction ws generalizing s with
  | nil => rfl
  | cons w ws ih => rw [applyAll_cons, ih, landings, List.length_append, apply_eq]

theorem length_landings (ws : List Write) (s : Scene) :
    (s.landings ws).length = ws.countP Write.isSet + 2 * s.currents ws := by
  induction ws generalizing s with
  | nil => rfl
  | cons w ws ih =>
    rw [landings, List.length_append, Write.length_landing, ih, List.countP_cons, currents]
    omega

theorem applied_applyAll (s : Scene) (ws : List Write) : s.Applied ws (s.applyAll ws) where
  scene := (applyAll_snd ws s).trans (land_eq_paint ws s)
  puts := applyAll_fst ws s
  kinds := (applyAll_fst ws s).trans (length_landings ws s)

end Scene

/-! Chunks that wake. -/

namespace Chunks

/-- From one map to the other chunks have been woken, each has been counted, and none has fallen
asleep. -/
def OnlyWakes (c d : Chunks) : Prop := ∃ woken, Balanced woken 0 c d

namespace OnlyWakes

variable {c d e : Chunks}

theorem of_same (hactive : d.activeCount = c.activeCount) (hwoke : d.woke = c.woke)
    (hslept : d.slept = c.slept) : OnlyWakes c d :=
  ⟨0, .of_same hactive hwoke hslept⟩

theorem refl (c : Chunks) : OnlyWakes c c := of_same rfl rfl rfl

theorem trans (h : OnlyWakes c d) (h' : OnlyWakes d e) : OnlyWakes c e := by
  obtain ⟨woken, hcd⟩ := h
  obtain ⟨woken', hde⟩ := h'
  exact ⟨woken + woken', hcd.trans hde⟩

theorem touch (c : Chunks) (i : Nat) : OnlyWakes c (c.touch i) := by
  obtain ⟨woken, hwake⟩ := exists_balanced_wake c i
  exact ⟨woken, hwake.active, hwake.woke, hwake.slept⟩

end OnlyWakes

theorem activeCount_le_count (c : Chunks) : c.activeCount ≤ c.count := by
  rw [activeCount_eq]
  exact List.countP_le_length.trans_eq Vector.length_toList

theorem exists_balanced_updateActivity (c : Chunks) (g : Grid) (keepsAwake : MaterialId → Bool) :
    ∃ woken, ∃ slept ≤ c.count, Balanced woken slept c (c.updateActivity g keepsAwake) := by
  rw [updateActivity_eq]
  exact exists_balanced_of_perm (.refl c.turns)

/-- Counts that begin at zero and stay below their limit tell what has happened. -/
theorem Balanced.exact {c d : Chunks} {woken slept : Nat} (h : Balanced woken slept c d)
    (hwoke : c.woke = 0) (hslept : c.slept = 0) (hwoken : woken ≤ countLimit)
    (hasleep : slept ≤ countLimit) :
    d.activeCount + d.slept.toNat = c.activeCount + d.woke.toNat := by
  rw [h.woke, h.slept, hwoke, hslept, UInt32.toNat_zero, Nat.zero_add, Nat.zero_add,
    min_eq_right hwoken, min_eq_right hasleep]
  exact h.active

end Chunks

namespace Scene

variable {s t : Scene}

/-! Waking. -/

theorem onlyWakes_put (s : Scene) (i : Nat) (id : MaterialId) :
    s.chunks.OnlyWakes (s.put i id).chunks := .touch s.chunks _

theorem onlyWakes_stamp (s : Scene) (i : Nat) : s.chunks.OnlyWakes (s.stamp i).chunks :=
  .of_same rfl rfl rfl

theorem onlyWakes_write (s : Scene) (commit : Commit) (i : Nat) (id : MaterialId) :
    s.chunks.OnlyWakes (s.write commit i id).chunks := by
  cases commit with
  | immediate => exact onlyWakes_put s i id
  | endOfPass => exact .refl _
  | endOfTick => exact .refl _

theorem onlyWakes_exchange (s : Scene) (commit : Commit) (source target : Nat) :
    s.chunks.OnlyWakes (s.exchange commit source target).chunks := by
  cases commit with
  | immediate => exact (onlyWakes_put s _ _).trans (onlyWakes_put _ _ _)
  | endOfPass => exact .refl _
  | endOfTick => exact .refl _

theorem onlyWakes_stampMove (s : Scene) (r : CompiledRule) (source target : Nat) :
    s.chunks.OnlyWakes (s.stampMove r source target).chunks := by
  simp only [stampMove]
  split_ifs
  · exact (onlyWakes_stamp s target).trans (onlyWakes_stamp _ source)
  · exact onlyWakes_stamp s source
  · exact onlyWakes_stamp s target
  · exact .refl _

theorem onlyWakes_enact (s : Scene) (d : Deed) : s.chunks.OnlyWakes (s.enact d).chunks := by
  cases d with
  | place i id => exact onlyWakes_put s i id
  | rewrite r i id => exact onlyWakes_write s r.commit i id
  | move r source target =>
    have hexchange := onlyWakes_exchange s r.commit source target
    exact hexchange.trans (onlyWakes_stampMove _ r source target)

theorem Run.onlyWakes {b : RuleBook} {hs : Handlers} {pass : Pass} {ds : List Deed}
    (h : s.Run b hs pass ds t) : s.chunks.OnlyWakes t.chunks := by
  induction h with
  | nil => exact .refl _
  | quiet _ ha ih => rwa [ha.chunks]
  | rule _ _ _ _ ih => exact ih.trans (onlyWakes_enact _ _)
  | place _ _ _ _ _ _ _ ih => exact ih.trans (onlyWakes_put _ _ _)

theorem onlyWakes_paint (cells : List (Nat × MaterialId)) (s : Scene) :
    s.chunks.OnlyWakes (World.paint s cells).chunks := by
  induction cells generalizing s with
  | nil => exact .refl _
  | cons c cells ih => exact (onlyWakes_put s c.1 c.2).trans (ih _)

theorem onlyWakes_flushPass (s : Scene) : s.chunks.OnlyWakes s.flushPass.2.chunks := by
  rw [flushPass_snd, land_eq_paint]
  exact onlyWakes_paint _ s.dropPass

theorem onlyWakes_flushTick (s : Scene) : s.chunks.OnlyWakes s.flushTick.2.chunks := by
  rw [flushTick_snd, land_eq_paint]
  exact onlyWakes_paint _ s.dropTick

theorem onlyWakes_runPass (b : RuleBook) (hs : Handlers) (pass : Pass) (s : Scene) :
    s.chunks.OnlyWakes (Scan.runPass b hs pass s).chunks := by
  have hbegun : s.chunks.OnlyWakes s.beginPass.chunks := .of_same rfl rfl rfl
  have hscan := (Scan.scan_run b hs pass s).onlyWakes
  rw [Scan.runPass_eq, (alike_countWritten _).chunks]
  exact (hbegun.trans hscan).trans (onlyWakes_flushPass _)

/-- There are too few chunks for a count of them to be full. -/
theorem Sound.two_mul_count_le (h : s.Sound) : 2 * s.chunks.count ≤ Chunks.countLimit := by
  have halong : ∀ n ≤ Config.maxDimension, Chunks.along n ≤ 2048 := by
    intro n hn
    simp only [Chunks.along, Chunks.edge, Config.maxDimension] at hn ⊢
    omega
  have hwidth := halong _ (h.width ▸ h.narrow)
  have hheight := halong _ (h.height ▸ h.short)
  calc
    2 * s.chunks.count ≤ 2 * (2048 * 2048) := Nat.mul_le_mul_left 2 (Nat.mul_le_mul hwidth hheight)
    _ ≤ Chunks.countLimit := by decide

theorem onlyWakes_afterPasses (b : RuleBook) (hs : Handlers) (s : Scene) :
    (World.beginTick s).chunks.OnlyWakes (afterPasses b hs s).chunks :=
  (onlyWakes_runPass b hs .rising _).trans (onlyWakes_runPass b hs .falling _)

theorem reckoned_chunks (b : RuleBook) (x : Nat × Scene) :
    (World.updateActivity b (Scan.countWritten x)).chunks
      = x.2.chunks.updateActivity x.2.grid b.keepsAwake := rfl

theorem reckoned_tally (b : RuleBook) (s : Scene) :
    (World.updateActivity b s).tally = s.tally := rfl

/-- A tick counts every chunk that it wakes or puts to sleep, each time it does. -/
theorem Sound.tick_balance (h : s.Sound) (b : RuleBook) (hs : Handlers) :
    (World.tick b hs s).chunks.activeCount + (World.tick b hs s).chunks.slept.toNat
      = s.chunks.activeCount + (World.tick b hs s).chunks.woke.toNat := by
  have hafter : (afterPasses b hs s).Sound :=
    (h.beginTick.runPass b hs .rising).runPass b hs .falling
  have hbefore := hafter.flushTick.two_mul_count_le
  have hend := (h.worldTick b hs).two_mul_count_le
  obtain ⟨woken, hwaking⟩ := (onlyWakes_afterPasses b hs s).trans (onlyWakes_flushTick _)
  rw [tick_eq, reckoned_chunks] at hend ⊢
  generalize (afterPasses b hs s).flushTick.2 = t at hbefore hend hwaking ⊢
  obtain ⟨woken', slept, hslept, hreckoned⟩ :=
    t.chunks.exists_balanced_updateActivity t.grid b.keepsAwake
  have hle := (t.chunks.updateActivity t.grid b.keepsAwake).activeCount_le_count
  have htick := hwaking.trans hreckoned
  have hactive := htick.active
  have hbegun : (World.beginTick s).chunks.activeCount = s.chunks.activeCount := rfl
  rw [← hbegun]
  exact htick.exact rfl rfl (by omega) (by omega)

end Scene

/-! Rules that are tried. -/

/-- No rule fires and no cell is visited without a rule being tried. -/
structure Tally.Tried (t : Tally) : Prop where
  fired : t.fired ≤ t.attempted
  visited : t.visited ≤ t.attempted

theorem Tally.Tried.countWritten {x : Nat × Scene} (h : x.2.tally.Tried) :
    (Scan.countWritten x).tally.Tried :=
  ⟨h.fired, h.visited⟩

theorem Scan.countWritten_written (x : Nat × Scene) :
    (Scan.countWritten x).tally.written = x.2.tally.written + x.1 := rfl

namespace Scene

variable {b : RuleBook} {hs : Handlers} {pass : Pass} {s : Scene}

theorem tried_runCell (h : s.tally.Tried) (x y : Nat) : (runCell b pass x y s).2.tally.Tried := by
  obtain ⟨visited, attempted, fired, hvisited, hfired, htally⟩ := runCell_tally b pass x y s
  rw [htally]
  exact ⟨Nat.add_le_add h.fired hfired, Nat.add_le_add h.visited hvisited⟩

theorem keeps_tried (b : RuleBook) (hs : Handlers) (pass : Pass) (n : Nat) :
    Scan.Keeps b hs pass fun s => s.tally.Tried ∧ s.tally.written = n where
  draw p h := by rwa [chance_tally]
  visit {s x y} _ _ h := by
    simp only [Scan.visitCell]
    split_ifs
    · exact h
    · cases pass with
      | rising => exact h
      | falling =>
        cases hs.get (s.grid.cell (s.grid.index x y)) with
        | none => exact h
        | some handler =>
          simp only [countHandled, Handler.update_tally]
          exact ⟨⟨h.1.fired, h.1.visited⟩, h.2⟩
    · refine ⟨tried_runCell h.1 x y, ?_⟩
      obtain ⟨_, _, _, -, -, htally⟩ := runCell_tally b pass x y s
      rw [htally]
      exact h.2

theorem tried_runPass (h : s.tally.Tried) (b : RuleBook) (hs : Handlers) (pass : Pass) :
    (Scan.runPass b hs pass s).tally.Tried ∧ (Scan.runPass b hs pass s).tally.written
      = s.tally.written + (Scan.scan b hs pass s).flushPass.1 := by
  obtain ⟨htried, hwritten⟩ := (keeps_tried b hs pass s.tally.written).scan ⟨h, rfl⟩
  rw [← flushPass_tally] at htried hwritten
  rw [Scan.runPass_eq, Scan.countWritten_written, hwritten]
  exact ⟨htried.countWritten, rfl⟩

theorem tried_tick (b : RuleBook) (hs : Handlers) (s : Scene) :
    (World.tick b hs s).tally.Tried ∧ (World.tick b hs s).tally.written
      = (Scan.scan b hs .rising (World.beginTick s)).flushPass.1
        + (Scan.scan b hs .falling (Scan.runPass b hs .rising (World.beginTick s))).flushPass.1
        + (afterPasses b hs s).flushTick.1 := by
  have hbegun : (World.beginTick s).tally.Tried := ⟨le_rfl, le_rfl⟩
  have hzero : (World.beginTick s).tally.written = 0 := rfl
  obtain ⟨hrisen, hrising⟩ := tried_runPass hbegun b hs .rising
  obtain ⟨hfallen, hfalling⟩ := tried_runPass hrisen b hs .falling
  rw [hrising, hzero, Nat.zero_add] at hfalling
  have hafter : (afterPasses b hs s).flushTick.2.tally.Tried := by rwa [flushTick_tally]
  rw [tick_eq, reckoned_tally, Scan.countWritten_written, flushTick_tally, ← hfalling]
  exact ⟨hafter.countWritten, rfl⟩

end Scene

namespace World

variable {b : RuleBook} {w : World}

/-- Active chunks after a step and chunks put to sleep in it are as many as those active before and
those woken. Rules fire no more often than they are tried, and no more cells are visited. The cells
written late are those that the flushes at the ends of the passes and of the tick have put. -/
theorem step_counters_balance (hw : Reached b w) (hperf : w.perfEnabled = true) :
    w.step.perf.active = w.step.scene.chunks.activeCount ∧
      w.step.perf.active + w.step.perf.slept
        = w.scene.chunks.activeCount + w.step.perf.woken ∧
      w.step.perf.fired ≤ w.step.perf.attempted ∧ w.step.perf.visited ≤ w.step.perf.attempted ∧
      w.step.perf.written = (w.beforeFlush .rising).flushPass.1
        + (w.beforeFlush .falling).flushPass.1
        + (Scene.afterPasses w.book w.handlers w.scene).flushTick.1 ∧
      (∀ pass, (w.beforeFlush pass).dropPass.Applied (w.beforeFlush pass).pending.pass.toList
        (w.beforeFlush pass).flushPass) ∧
      (Scene.afterPasses w.book w.handlers w.scene).dropTick.Applied
        (Scene.afterPasses w.book w.handlers w.scene).pending.tick.toList
        (Scene.afterPasses w.book w.handlers w.scene).flushTick := by
  have hperf : w.step.perf = perfOf w.step.scene w.step.steps := if_pos hperf
  have hbalance := hw.rested.sound.tick_balance w.book w.handlers
  obtain ⟨htried, hwritten⟩ := Scene.tried_tick w.book w.handlers w.scene
  have hscene : w.step.scene = tick w.book w.handlers w.scene := rfl
  rw [hperf, hscene]
  generalize tick w.book w.handlers w.scene = t at hbalance htried hwritten ⊢
  exact ⟨rfl, hbalance, htried.fired, htried.visited, hwritten,
    fun pass => Scene.applied_applyAll _ _, Scene.applied_applyAll _ _⟩

/-- Of two drifters one moves at the end of each pass. The other decides to move in both passes, but
at the end of the tick its second exchange is stale, so six cells are written and not eight. And the
chunk of a row with no drifters falls asleep in the end. -/
theorem step_counters_balance_drifters :
    ∃ b w v, RuleBook.compile Catalog.drifters = .ok b ∧
      w = (paintedRow b [(1, 2), (3, 3)]).obey (.enablePerf true) ∧ w.perfEnabled = true ∧
      (Scene.afterPasses w.book w.handlers w.scene).pending.tick.size = 2 ∧
      w.step.perf.written = 6 ∧ w.step.perf.fired ≤ w.step.perf.attempted ∧
      v = stepMany 60 ((paintedRow b []).obey (.enablePerf true)) ∧ v.perfEnabled = true ∧
      v.scene.chunks.activeCount = 1 ∧ v.step.perf.slept = 1 ∧
      v.step.perf.active = v.step.perf.woken := by
  obtain ⟨b, hb⟩ := Catalog.compile_drifters
  obtain ⟨w, hw⟩ : ∃ w, w = (paintedRow b [(1, 2), (3, 3)]).obey (.enablePerf true) := ⟨_, rfl⟩
  obtain ⟨v, hv⟩ : ∃ v, v = stepMany 60 ((paintedRow b []).obey (.enablePerf true)) := ⟨_, rfl⟩
  have hflushes : (w.perfEnabled, (w.beforeFlush .rising).flushPass.1,
      (w.beforeFlush .falling).flushPass.1,
      (Scene.afterPasses w.book w.handlers w.scene).flushTick.1,
      (Scene.afterPasses w.book w.handlers w.scene).pending.tick.size) = (true, 2, 2, 2, 2) := by
    rw [hw]
    refine RuleBook.eq_of_compile hb (f := fun b =>
      let w := (paintedRow b [(1, 2), (3, 3)]).obey (.enablePerf true)
      let s := Scene.afterPasses w.book w.handlers w.scene
      (w.perfEnabled, (w.beforeFlush .rising).flushPass.1, (w.beforeFlush .falling).flushPass.1,
        s.flushTick.1, s.pending.tick.size)) ?_
    decide +kernel
  have hsleep : (v.perfEnabled, v.scene.chunks.activeCount, v.step.perf.slept) = (true, 1, 1) := by
    rw [hv]
    refine RuleBook.eq_of_compile hb (f := fun b =>
      let v := stepMany 60 ((paintedRow b []).obey (.enablePerf true))
      (v.perfEnabled, v.scene.chunks.activeCount, v.step.perf.slept)) ?_
    decide +kernel
  simp only [Prod.mk.injEq] at hflushes hsleep
  obtain ⟨hperf, hrising, hfalling, htick, hqueue⟩ := hflushes
  obtain ⟨hperf', hactive, hslept⟩ := hsleep
  have hreached : Reached b w := hw ▸ (reached_paintedRow b _).obey (.enablePerf true)
  have hreached' : Reached b v :=
    hv ▸ ((reached_paintedRow b _).obey (.enablePerf true)).stepMany 60
  obtain ⟨-, -, hfired, -, hwritten, -⟩ := step_counters_balance hreached hperf
  obtain ⟨-, hbalance, -⟩ := step_counters_balance hreached' hperf'
  rw [hrising, hfalling, htick] at hwritten
  rw [hactive, hslept, Nat.add_comm 1] at hbalance
  exact ⟨b, w, v, hb, hw, hperf, hqueue, hwritten, hfired, hv, hperf', hactive, hslept,
    Nat.add_right_cancel hbalance⟩

end World

end Sandfall
