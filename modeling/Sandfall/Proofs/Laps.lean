import Sandfall.Proofs.Period
import Sandfall.Proofs.Slumber
import Sandfall.Proofs.Traced

/-! Claimed cells over long runs. Within a pass a claimed cell stays, so if all moves are claimed
the trace of a run shows no particle that moves twice, as long as moves are taken down often enough.
A world whose chunks all sleep lets passes go by without a look at its cells. When a lap of the pass
counter has gone by like that, the trace takes the next move for one of the old pass. -/

namespace Sandfall

namespace World

variable {b : RuleBook} {w : World}

/-- Some of the commands, one after the other, take so many steps in which the trace, which has
moves, takes no more of them down. -/
def Lull (w : World) (commands : List Command) (n : Nat) : Prop :=
  ∃ before between after t u, commands = before ++ between ++ after ∧
    (between.map Command.steps).sum = n ∧
    (w.obeyAll before).scene.trace = some t ∧ t.moves ≠ #[] ∧
    (w.obeyAll (before ++ between)).scene.trace = some u ∧ u.moves = t.moves

theorem Lull.concat {commands : List Command} {n : Nat} (h : w.Lull commands n)
    (command : Command) : w.Lull (commands ++ [command]) n := by
  obtain ⟨before, between, after, t, u, rfl, h⟩ := h
  exact ⟨before, between, after ++ [command], t, u, by simp, h⟩

theorem Lull.le {commands : List Command} {n : Nat} (h : w.Lull commands n) :
    n ≤ (commands.map Command.steps).sum := by
  obtain ⟨before, between, after, -, -, rfl, rfl, -⟩ := h
  simp only [List.map_append, List.sum_append]
  omega

/-- The trace is calm, and its last move is about as old as the lull that the commands end with. -/
structure Lulled (w : World) (commands : List Command) (n : Nat) (u : Trace) : Prop where
  calm : u.Calm n
  since : u.moves ≠ #[] → ∃ before between t, commands = before ++ between ∧
    (w.obeyAll before).scene.trace = some t ∧ t.moves = u.moves ∧
      n ≤ 2 * (between.map Command.steps).sum + 1

theorem lulled_of_empty (w : World) (commands : List Command) {u : Trace} (h : u.moves = #[]) :
    w.Lulled commands 0 u :=
  ⟨Trace.calm_of_empty h 0, fun hsome => absurd h hsome⟩

/-- As long as no lull lasts for a lap of the pass counter, the trace stays calm. -/
theorem Rested.lulled_obeyAll (h : w.Rested b) (hb : b.ClaimsMoves)
    (hempty : ∀ t, w.scene.trace = some t → t.moves = #[]) {commands : List Command}
    (hlull : ∀ n, w.Lull commands n → 2 * (n + 1) < UInt32.size) {u : Trace}
    (hu : (w.obeyAll commands).scene.trace = some u) :
    ∃ n, n + 2 < UInt32.size ∧ w.Lulled commands n u := by
  unfold UInt32.size at hlull ⊢
  induction commands using List.reverseRecOn generalizing u with
  | nil => exact ⟨0, by omega, lulled_of_empty w [] (hempty u hu)⟩
  | append_singleton commands command ih =>
    by_cases hnone : u.moves = #[]
    · exact ⟨0, by omega, lulled_of_empty w _ hnone⟩
    have ih := @ih fun n hn => hlull n (hn.concat command)
    -- the trace before the command, if there was one
    obtain ⟨n, hn, hbefore⟩ : ∃ n, n + 2 < 4294967296 ∧
        ∀ t, (w.obeyAll commands).scene.trace = some t → w.Lulled commands n t := by
      cases hold : (w.obeyAll commands).scene.trace with
      | none => exact ⟨0, by omega, nofun⟩
      | some t =>
        obtain ⟨n, hn, ht⟩ := ih hold
        exact ⟨n, hn, fun t' ht' => Option.some.inj ht' ▸ ht⟩
    have hobey := hu
    rw [obeyAll_concat] at hobey
    rcases (h.obeyAll commands).calm_obey hb hn (fun t ht => (hbefore t ht).calm) hobey with
      ⟨k, hk, hyoung⟩ | ⟨t, ht, hsame, haged⟩
    · exact ⟨k, by omega, hyoung, fun _ =>
        ⟨commands ++ [command], [], u, (List.append_nil _).symm, hu, rfl, by simpa using hk⟩⟩
    · -- the lull goes on
      obtain ⟨before, between, t', rfl, ht', hmoves, hage⟩ := (hbefore t ht).since (hsame ▸ hnone)
      have hsteps : ((between ++ [command]).map Command.steps).sum
          = (between.map Command.steps).sum + command.steps := by simp
      have hlong := hlull _ ⟨before, between ++ [command], [], t', u, by simp, rfl, ht',
        by rwa [hmoves, ← hsame], by rwa [← List.append_assoc], hsame.trans hmoves.symm⟩
      rw [hsteps] at hlong
      refine ⟨_, by omega, haged, fun _ => ⟨before, between ++ [command], t',
        List.append_assoc .., ht', hmoves.trans hsame.symm, by omega⟩⟩

/-- The deeds of a pass of a step make up all that the pass does before its flush, and the trace
takes down their moves. Nothing moves from or to a cell that an earlier move has claimed. If all
moves are claimed, as with the built-in materials, and no lull of the trace lasts for a lap of the
pass counter, then no recorded move ever repeats. -/
theorem claimed_cells_stay (hw : Reached b w) :
    (∀ pass,
      (w.beforePass pass).beginPass.Run w.book w.handlers pass (w.passDeeds pass)
        (Scan.scan w.book w.handlers pass (w.beforePass pass)) ∧
      (Scan.runPass w.book w.handlers pass (w.beforePass pass)).trace
        = (w.beforePass pass).trace.map (fun t => t.beginPass.recordAll (w.passDeeds pass)) ∧
      Deed.Respectful (w.passDeeds pass)) ∧
    (b.ClaimsMoves → (∀ t, w.scene.trace = some t → t.moves = #[]) → ∀ commands,
      (∀ n, w.Lull commands n → 2 * (n + 1) < UInt32.size) →
        ∀ t, (w.obeyAll commands).scene.trace = some t → t.repeatedMoves = []) ∧
    (RuleBook.compile Catalog.builtin = .ok b → b.ClaimsMoves) := by
  refine ⟨?_, ?_, RuleBook.claimsMoves_builtin⟩
  · intro pass
    have hrun := Scan.scan_run w.book w.handlers pass (w.beforePass pass)
    have hsound := sound_beforePass hw.rested.sound pass
    exact ⟨hrun, Scene.runPass_trace _ _ _ _, hrun.respectful hsound.beginPass⟩
  · intro hb hempty commands hlull t ht
    obtain ⟨_, -, hlulled⟩ := hw.rested.lulled_obeyAll hb hempty hlull ht
    exact hlulled.calm.unrepeated

/-- Sand falls, and for a whole lap of the pass counter its trace shows no grain that moves twice
in a pass. -/
theorem claimed_cells_stay_sand :
    ∃ b w, RuleBook.compile Catalog.builtin = .ok b ∧ Reached b w ∧
      ∀ n, 2 * (n + 1) < UInt32.size →
        ∃ t, (w.stepMany n).scene.trace = some t ∧ t.repeatedMoves = [] := by
  obtain ⟨b, hb⟩ := RuleBook.compile_builtin
  have hcreate : ∃ w, create { width := 4, height := 4, seed := 7 } b = .ok w := ⟨_, rfl⟩
  obtain ⟨w, hw⟩ := hcreate
  have hpoured : Reached b ((w.obey (.fillDisc 1 1 1 Catalog.Builtin.sand)).obey
      (.enableTrace true)) := ((Reached.create hw).obey _).obey _
  obtain ⟨-, -, -, -, hscene⟩ := create_eq_ok hw
  have hnone : (w.obey (.fillDisc 1 1 1 Catalog.Builtin.sand)).scene.trace = none := by
    rw [obey, fillDisc_trace, hscene]
    rfl
  have htraced : ((w.obey (.fillDisc 1 1 1 Catalog.Builtin.sand)).obey
      (.enableTrace true)).scene.trace = some Trace.empty := by
    change some ((w.obey _).scene.trace.getD Trace.empty) = _
    rw [hnone]
    rfl
  obtain ⟨-, hnever, hclaims⟩ := claimed_cells_stay hpoured
  refine ⟨b, _, hb, hpoured, fun n hn => ?_⟩
  obtain ⟨t, ht⟩ := Option.isSome_iff_exists.mp (stepMany_trace_isSome n (by rw [htraced]; rfl))
  refine ⟨t, ht, hnever (hclaims hb) ?_ (List.replicate n .step) ?_ t ?_⟩
  · intro t ht
    cases htraced.symm.trans ht
    rfl
  · intro m hm
    have hle : m ≤ n := by simpa [Command.steps] using hm.le
    omega
  · rwa [obeyAll_replicate_step]

end World

/-! A world whose chunks all sleep. -/

namespace Chunks

variable {c : Chunks}

/-- The map after a tick that finds all its chunks asleep. -/
def passBy (c : Chunks) : Chunks := c.beginTick.beginPass.beginPass

theorem passBy_passBy (c : Chunks) : c.passBy.passBy = c.passBy := by
  simp only [passBy, beginTick, beginPass, Stamps.beginPass, List.foldl_nil]
  by_cases hparity : c.stamps.parity = 1 <;> simp [hparity]

theorem updateActivity_asleep (h : ∀ i, c.isActive i = false) (g : Grid)
    (keepsAwake : MaterialId → Bool) : c.updateActivity g keepsAwake = c := by
  have hnone : c.activeSums g = [] := by simp [activeSums, h]
  rw [updateActivity, hnone, List.foldl_nil]

end Chunks

namespace Scan

variable {b : RuleBook} {hs : Handlers} {pass : Pass} {s : Scene}

theorem visitRows_asleep (h : ∀ i, s.chunks.isActive i = false) (ys : List Nat) :
    ys.foldl (visitRow b hs pass) s = { s with random := s.random.after ys.length } := by
  induction ys generalizing s with
  | nil => rfl
  | cons y ys ih =>
    have hrow : visitRow b hs pass s y = (s.chance .half).2 :=
      Scene.foldl_eq_self fun cx _ => if_neg (by simp [h])
    rw [List.foldl_cons, hrow, ih (s := (s.chance .half).2) h, List.length_cons, Nat.add_comm,
      Random.after_add]
    rfl

theorem runPass_asleep (h : ∀ i, s.chunks.isActive i = false) (hpending : s.pending = .empty) :
    runPass b hs pass s = { s with
      chunks := s.chunks.beginPass
      random := s.random.after s.grid.height
      trace := s.trace.map Trace.beginPass } := by
  have hflush : ∀ t : Scene, t.pending = .empty → countWritten t.flushPass = t := by
    rintro ⟨grid, chunks, pending, random, trace, tally, notes⟩ rfl
    rfl
  have hrows : (rowOrder pass s.grid.height).foldl (visitRow b hs pass) s.beginPass
      = { s.beginPass with random := s.random.after s.grid.height } := by
    rw [visitRows_asleep (s := s.beginPass) h, length_rowOrder]
    rfl
  exact (congrArg (fun t => countWritten (Scene.flushPass t)) hrows).trans (hflush _ hpending)

end Scan

namespace Scene

variable {s : Scene}

theorem tick_asleep (b : RuleBook) (hs : Handlers) (h : ∀ i, s.chunks.isActive i = false)
    (hpending : s.pending = .empty) : World.tick b hs s = { s with
      chunks := s.chunks.passBy
      random := s.random.after (2 * s.grid.height)
      trace := s.trace.map fun t => { t with pass := t.pass + 2 }
      tally := {} } := by
  obtain ⟨grid, chunks, pending, random, trace, tally, notes⟩ := s
  obtain rfl : pending = .empty := hpending
  have hrising : Scan.runPass b hs .rising
        ⟨grid, chunks.beginTick, .empty, random, trace, {}, notes⟩
      = ⟨grid, chunks.beginTick.beginPass, .empty, random.after grid.height,
        trace.map Trace.beginPass, {}, notes⟩ := Scan.runPass_asleep h rfl
  have hfalling : Scan.runPass b hs .falling ⟨grid, chunks.beginTick.beginPass, .empty,
        random.after grid.height, trace.map Trace.beginPass, {}, notes⟩
      = ⟨grid, chunks.passBy, .empty, (random.after grid.height).after grid.height,
        (trace.map Trace.beginPass).map Trace.beginPass, {}, notes⟩ := Scan.runPass_asleep h rfl
  have hpasses : (trace.map Trace.beginPass).map Trace.beginPass
      = trace.map fun t => { t with pass := t.pass + 2 } := by
    rw [Option.map_map]
    congr
    funext t
    exact congrArg (fun pass => { t with pass }) (UInt32.add_assoc t.pass 1 1)
  rw [hpasses, ← Random.after_add, ← Nat.two_mul] at hfalling
  unfold World.tick World.beginTick
  simp only [hrising, hfalling]
  exact congrArg (fun chunks => Scene.mk grid chunks .empty _ _ {} notes)
    (Chunks.updateActivity_asleep (c := chunks.passBy) h grid b.keepsAwake)

/-- The scene after some ticks, at least one, that find all its chunks asleep. -/
def sleepOn (s : Scene) (n : Nat) : Scene :=
  { s with
    chunks := s.chunks.passBy
    random := s.random.after (n * (2 * s.grid.height))
    trace := s.trace.map fun t => { t with pass := t.pass + UInt32.ofNat (2 * n) }
    tally := {} }

end Scene

namespace World

variable {b : RuleBook} {w : World}

theorem stepMany_asleep (hw : w.Rested b) (h : ∀ i, w.scene.chunks.isActive i = false) (n : Nat) :
    (w.stepMany (n + 1)).scene = w.scene.sleepOn (n + 1) := by
  have hstep := hw.step_scene.trans (Scene.tick_asleep b w.handlers h hw.pending)
  induction n generalizing w with
  | zero =>
    rw [Scene.sleepOn, Nat.zero_add, Nat.one_mul]
    exact hstep
  | succ n ih =>
    have hnext : w.step.Rested b := hw.obey .step
    have hasleep : ∀ i, w.step.scene.chunks.isActive i = false := by
      rw [hstep]
      exact h
    have hrest := ih hnext hasleep (hnext.step_scene.trans
      (Scene.tick_asleep b w.step.handlers hasleep hnext.pending))
    have hdraws : (w.scene.random.after (2 * w.scene.grid.height)).after
        ((n + 1) * (2 * w.scene.grid.height))
          = w.scene.random.after ((n + 1 + 1) * (2 * w.scene.grid.height)) := by
      rw [← Random.after_add, Nat.succ_mul (n + 1), Nat.add_comm]
    have hcount : ∀ t : Trace, t.pass + 2 + UInt32.ofNat (2 * (n + 1))
        = t.pass + UInt32.ofNat (2 * (n + 1 + 1)) := by
      intro t
      rw [Nat.mul_succ 2 (n + 1), UInt32.ofNat_add, UInt32.add_assoc]
      exact congrArg (t.pass + ·) (UInt32.add_comm _ _)
    change (w.step.stepMany (n + 1)).scene = _
    rw [hrest, hstep]
    simp only [Scene.sleepOn, Chunks.passBy_passBy, Option.map_map, Function.comp_def, hcount]
    rw [← hdraws]

end World

/-! A grain rests on a wall for a lap of the pass counter. -/

namespace Catalog

/-- A grain that falls into an empty cell below, and a wall. -/
def grains : Catalog :=
  (empty.define 1 {
    name := "grain"
    color := 0
    rules := [{
      sampler := .offsets [(0, 1)]
      matchers := [⟨.ids [MaterialId.empty], 0⟩]
      outcomes := [.swap .one]
      stamp := true }] }).define 2 { name := "wall", color := 0 }

theorem compile_grains : ∃ b, RuleBook.compile grains = .ok b := by
  apply RuleBook.exists_compile
  intro id a ha r hr
  simp only [grains, get_define, get_empty] at ha
  split_ifs at ha
  · cases ha
    cases hr
  · cases ha
    cases List.mem_singleton.mp hr
    rfl

theorem claimsMoves_grains {b : RuleBook} (hb : b.Reads grains) : b.ClaimsMoves := by
  refine hb.claimsMoves fun id a ha r hr _ => .inl ?_
  simp only [grains, get_define, get_empty] at ha
  split_ifs at ha
  · cases ha
    cases hr
  · cases ha
    cases List.mem_singleton.mp hr
    rfl

end Catalog

theorem Random.after_period {x : UInt32} (hx : x ≠ 0) (k : Nat) :
    (⟨x⟩ : Random).after (k * (UInt32.size - 1)) = ⟨x⟩ := by
  have hperiod : step.IsPeriodicPt (UInt32.size - 1) x := minimalPeriod_step hx ▸
    Function.isPeriodicPt_minimalPeriod step x
  rw [after, iterate_next, (hperiod.const_mul k).eq]

namespace World

variable {b : RuleBook} {w : World}

theorem obeyAll_steps (w : World) (before after : List Command) (m n : Nat) :
    w.obeyAll (before ++ List.replicate (m + n) .step ++ after)
      = (((w.obeyAll before).stepMany m).stepMany n).obeyAll after := by
  rw [obeyAll_append, obeyAll_append, ← List.replicate_append_replicate, obeyAll_append,
    obeyAll_replicate_step, obeyAll_replicate_step]

/-- A grain at the top of a column, with a wall two cells below it, after sixty-one steps. -/
def grainColumn (b : RuleBook) : World :=
  ((opened { width := 1, height := 3, seed := 7 } b).obeyAll
    [.enableTrace true, .set 0 0 1, .set 0 2 2]).stepMany 61

/-- The moves taken down by the next step after the wall is taken away. -/
def grainMoves (b : RuleBook) (s : Scene) : Option (List Move) :=
  (tick b .none (s.place b 0 2 0).2).trace.map fun t => t.moves.toList

/-- The grain has fallen and all sleeps. With the generator where it will be after a lap of the pass
counter, the grain falls once more. -/
theorem grainColumn_rests (hb : RuleBook.compile Catalog.grains = .ok b) :
    (((grainColumn b).height, (grainColumn b).scene.chunks.count),
      (grainColumn b).scene.chunks.isActive 0, (grainColumn b).scene.random.state,
      grainMoves b { (grainColumn b).scene.sleepOn 2147483587 with random := ⟨1194369467⟩ })
        = ((3, 1), false, 4212144146, some [⟨1, 0, 1⟩, ⟨1, 1, 2⟩]) := by
  refine RuleBook.eq_of_compile hb (f := fun b =>
    (((grainColumn b).height, (grainColumn b).scene.chunks.count),
      (grainColumn b).scene.chunks.isActive 0, (grainColumn b).scene.random.state,
      grainMoves b { (grainColumn b).scene.sleepOn 2147483587 with random := ⟨1194369467⟩ })) ?_
  decide +kernel

theorem Rested.trace_freed (hw : w.Rested b) (hnone : w.handlers = .none) {ms : List Move}
    (hmoves : grainMoves b w.scene = some ms) :
    ∃ t, (w.obeyAll [.set 0 2 0, .step]).scene.trace = some t ∧ t.moves.toList = ms := by
  have hscene : (w.obeyAll [.set 0 2 0, .step]).scene
      = tick w.book w.handlers (w.scene.place w.book 0 2 0).2 := rfl
  rw [hscene, hw.book, hnone]
  exact Option.map_eq_some_iff.mp hmoves

/-- The draws of the sleeping world take the generator around its cycle. -/
theorem random_grainColumn {s : Scene} (hheight : s.grid.height = 3)
    (hstate : s.random.state = 4212144146) :
    (s.sleepOn 2147483587).random = ⟨1194369467⟩ := by
  have hback : s.random = (⟨1194369467⟩ : Random).after 363 := by
    have hhere : s.random = ⟨4212144146⟩ := congrArg Random.mk hstate
    rw [hhere]
    decide +kernel
  have hdraws : 363 + 2147483587 * (2 * 3) = 3 * (UInt32.size - 1) := by decide
  change s.random.after (2147483587 * (2 * s.grid.height)) = _
  rw [hheight, hback, ← Random.after_add, hdraws, Random.after_period (by decide)]

/-- All moves of a grain are claimed, but after a lap of the pass counter the trace takes its second
move for one of the pass of the first. -/
theorem grain_repeats_lap :
    ∃ b v w, RuleBook.compile Catalog.grains = .ok b ∧ b.ClaimsMoves ∧
      create { width := 1, height := 3, seed := 7 } b = .ok v ∧
      w = v.obeyAll ([.enableTrace true, .set 0 0 1, .set 0 2 2]
        ++ List.replicate 2147483648 .step ++ [.set 0 2 0, .step]) ∧
      ∃ t, w.scene.trace = some t ∧ t.repeatedMoves = [⟨1, 1, 2⟩] := by
  obtain ⟨b, hb⟩ := Catalog.compile_grains
  have hv : create { width := 1, height := 3, seed := 7 } b = .ok (opened _ b) :=
    create_eq_ok_iff.mpr ⟨rfl, rfl⟩
  have hlong : 2147483648 = 61 + 2147483587 := by decide
  refine ⟨b, _, _, hb, Catalog.claimsMoves_grains (RuleBook.reads_of_compile hb), hv, rfl, ?_⟩
  rw [hlong, obeyAll_steps]
  have hu : Reached b (grainColumn b) :=
    ((Reached.create hv).obeyAll [.enableTrace true, .set 0 0 1, .set 0 2 2]).stepMany 61
  have hnone : (grainColumn b).handlers = .none := by
    unfold grainColumn
    rw [stepMany_handlers]
    rfl
  have hrests := grainColumn_rests hb
  simp only [Prod.mk.injEq] at hrests
  obtain ⟨⟨hheight, hcount⟩, hidle, hstate, hmoves⟩ := hrests
  change ∃ t, (((grainColumn b).stepMany 2147483587).obeyAll _).scene.trace = some t ∧ _
  generalize grainColumn b = u at *
  have hasleep : ∀ i, u.scene.chunks.isActive i = false := by
    intro i
    rcases Nat.eq_zero_or_pos i with rfl | hi
    · exact hidle
    · exact u.scene.chunks.isActive_of_count_le (by omega)
  have hscene : (u.stepMany 2147483587).scene = u.scene.sleepOn 2147483587 :=
    stepMany_asleep hu.rested hasleep 2147483586
  rw [← random_grainColumn hheight hstate] at hmoves
  obtain ⟨t, ht, hlist⟩ := (hu.stepMany 2147483587).rested.trace_freed
    ((stepMany_handlers u _).trans hnone) ((congrArg (grainMoves b) hscene).trans hmoves)
  refine ⟨t, ht, ?_⟩
  rw [Trace.repeatedMoves_eq_select, hlist]
  decide +kernel

end World

end Sandfall
