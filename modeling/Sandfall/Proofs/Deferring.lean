import Sandfall.Proofs.Queue
import Sandfall.Proofs.Defined

/-! Passes that decide first and write later. If no rule of a pass lands at once, then all that its
deeds do is to wait, and to stamp the cells they will move. Every rule looks at the cells as the
pass has found them, whatever the rules before it have decided, and the pass ends with its queue
applied to those cells in the order of the deeds. -/

namespace Sandfall

namespace Grid

/-- The grid after a write that has waited. A stale exchange is dropped. -/
def receive (g : Grid) : Write → Grid
  | .set i id => g.set i.toNat id
  | .exchange source target moving displaced =>
    if g.cell source.toNat = moving ∧ g.cell target.toNat = displaced then
      g.exchange source.toNat target.toNat
    else g

def receiveAll (g : Grid) (ws : List Write) : Grid := ws.foldl receive g

end Grid

namespace Deed

/-- When a deed lands; handlers act at once. -/
def commit : Deed → Commit
  | .place .. => .immediate
  | .rewrite r .. => r.commit
  | .move r .. => r.commit

/-- The write that a deed leaves for a time, if it lands then. An exchange takes down what its cells
hold in the grid. -/
def waiting? (g : Grid) (time : Commit) : Deed → Option Write
  | .place .. => none
  | .rewrite r i id => if r.commit = time then some (.ofSet i id) else none
  | .move r source target =>
    if r.commit = time then
      some (.ofExchange source target (g.cell source) (g.cell target))
    else none

theorem ByRule.commit {s : Scene} {a : Actor} {r : CompiledRule} {d : Deed} (hd : d.ByRule s a r) :
    d.commit = r.commit := by
  cases hd <;> rfl

/-- Rules read no more of a scene than its cells and stamps. -/
theorem ByRule.alike {s t : Scene} {a : Actor} {r : CompiledRule} {d : Deed} (hd : d.ByRule s a r)
    (h : s.Alike t) : d.ByRule t a r := by
  have hgrid : s.grid = t.grid := h.grid.symm
  have hstamped : ∀ i, s.isStamped i = t.isStamped i := fun i => (h.isStamped i).symm
  cases hd with
  | candidate hi hsends => exact .candidate (hgrid ▸ hi) (hgrid ▸ hsends)
  | actor hsends => exact .actor hsends
  | swap ht hfree hsends hkind =>
    exact .swap (hgrid ▸ ht) (hstamped _ ▸ hfree) (hgrid ▸ hsends) hkind
  | throw ht hfree hsends hreach hallow =>
    exact .throw (hgrid ▸ ht) (hstamped _ ▸ hfree) hsends hreach (hgrid ▸ hallow)
  | pull hi ht hfree hfree' hactor hactor' hne hsends hreach hallow =>
    exact .pull (hgrid ▸ hi) (hgrid ▸ ht) (hstamped _ ▸ hfree) (hstamped _ ▸ hfree') hactor hactor'
      hne (hgrid ▸ hsends) hreach (hgrid ▸ hallow)

theorem waiting?_of_ne {g : Grid} {time : Commit} {d : Deed} (hd : d.commit ≠ time) :
    d.waiting? g time = none := by
  cases d with
  | place i id => rfl
  | rewrite r i id => exact if_neg hd
  | move r source target => exact if_neg hd

end Deed

/-- No rule of the pass lands at once. -/
def RuleBook.Defers (b : RuleBook) (pass : Pass) : Prop :=
  ∀ id, ∀ r ∈ b.rules pass id, r.commit ≠ .immediate

/-- All rules land at the end of the tick. -/
def RuleBook.Postpones (b : RuleBook) : Prop :=
  ∀ pass id, ∀ r ∈ b.rules pass id, r.commit = .endOfTick

theorem RuleBook.Postpones.defers {b : RuleBook} (h : b.Postpones) (pass : Pass) :
    b.Defers pass := by
  intro id r hr
  rw [h pass id r hr]
  exact nofun

/-- The chunks differ in stamps only: none wakes, counts on or is marked. -/
def Chunks.AtRest (c d : Chunks) : Prop := ∃ stamps, d = { c with stamps }

theorem Chunks.AtRest.trans {c d e : Chunks} (h : c.AtRest d) (h' : d.AtRest e) :
    c.AtRest e := by
  obtain ⟨_, rfl⟩ := h
  obtain ⟨_, rfl⟩ := h'
  exact ⟨_, rfl⟩

namespace Scene

/-- The cells are the same, and the chunks but for stamps. -/
structure Unmoved (s t : Scene) : Prop where
  grid : t.grid = s.grid
  chunks : s.chunks.AtRest t.chunks

namespace Unmoved

variable {s t u : Scene}

theorem refl (s : Scene) : s.Unmoved s := ⟨rfl, _, rfl⟩

theorem trans (h : s.Unmoved t) (h' : t.Unmoved u) : s.Unmoved u :=
  ⟨h'.grid.trans h.grid, h.chunks.trans h'.chunks⟩

end Unmoved

theorem unmoved_write (s : Scene) {time : Commit} (h : time ≠ .immediate) (i : Nat)
    (id : MaterialId) : s.Unmoved (s.write time i id) := by
  cases time with
  | immediate => exact absurd rfl h
  | endOfPass => exact ⟨rfl, _, rfl⟩
  | endOfTick => exact ⟨rfl, _, rfl⟩

theorem unmoved_exchange (s : Scene) {time : Commit} (h : time ≠ .immediate)
    (source target : Nat) : s.Unmoved (s.exchange time source target) := by
  cases time with
  | immediate => exact absurd rfl h
  | endOfPass => exact ⟨rfl, _, rfl⟩
  | endOfTick => exact ⟨rfl, _, rfl⟩

theorem unmoved_stampMove (s : Scene) (r : CompiledRule) (source target : Nat) :
    s.Unmoved (s.stampMove r source target) := by
  simp only [stampMove]
  split_ifs <;> exact ⟨rfl, _, rfl⟩

theorem unmoved_move (s : Scene) {r : CompiledRule} (h : r.commit ≠ .immediate)
    (source target : Nat) : s.Unmoved (s.move r source target) := by
  have hexchange := s.unmoved_exchange h source target
  have hstamp := unmoved_stampMove (s.exchange r.commit source target) r source target
  exact (hexchange.trans hstamp).trans ⟨rfl, _, rfl⟩

/-- All that the deeds have done to a scene is to wait, one behind the other. -/
structure PutOff (s : Scene) (ds : List Deed) (t : Scene) : Prop where
  unmoved : s.Unmoved t
  pass : t.pending.pass.toList
    = s.pending.pass.toList ++ ds.filterMap (Deed.waiting? s.grid .endOfPass)
  tick : t.pending.tick.toList
    = s.pending.tick.toList ++ ds.filterMap (Deed.waiting? s.grid .endOfTick)

namespace PutOff

variable {s t u : Scene} {ds es : List Deed}

theorem of_same (hunmoved : s.Unmoved t) (hpending : t.pending = s.pending) : s.PutOff [] t :=
  ⟨hunmoved, by simp [hpending], by simp [hpending]⟩

theorem refl (s : Scene) : s.PutOff [] s := .of_same (.refl s) rfl

theorem trans (h : s.PutOff ds t) (h' : t.PutOff es u) : s.PutOff (ds ++ es) u where
  unmoved := h.unmoved.trans h'.unmoved
  pass := by rw [h'.pass, h.pass, h.unmoved.grid, List.filterMap_append, List.append_assoc]
  tick := by rw [h'.tick, h.tick, h.unmoved.grid, List.filterMap_append, List.append_assoc]

theorem alike (h : s.PutOff ds t) (ha : t.Alike u) : s.PutOff ds u := by
  have hnothing : t.PutOff [] u :=
    .of_same ⟨ha.grid, _, ha.chunks⟩ ha.pending
  simpa only [List.append_nil] using h.trans hnothing

/-- That the stamps expire as a pass begins is no deed. -/
theorem of_beginPass (h : s.beginPass.PutOff ds t) : s.PutOff ds t :=
  (of_same ⟨rfl, _, rfl⟩ rfl : s.PutOff [] s.beginPass).trans h

end PutOff

theorem putOff_enact (s : Scene) {d : Deed} (hd : d.commit ≠ .immediate) :
    s.PutOff [d] (s.enact d) := by
  cases d with
  | place i id => exact absurd rfl hd
  | rewrite r i id =>
    have hunmoved := s.unmoved_write hd i id
    cases hcommit : r.commit with
    | immediate => exact absurd hcommit hd
    | endOfPass =>
      refine ⟨hunmoved, ?_, ?_⟩ <;>
        simp [Scene.enact, write, Deed.waiting?, Pending.pushPass, hcommit]
    | endOfTick =>
      refine ⟨hunmoved, ?_, ?_⟩ <;>
        simp [Scene.enact, write, Deed.waiting?, Pending.pushTick, hcommit]
  | move r source target =>
    have hunmoved := s.unmoved_move hd source target
    cases hcommit : r.commit with
    | immediate => exact absurd hcommit hd
    | endOfPass =>
      refine ⟨hunmoved, ?_, ?_⟩ <;>
        simp [Scene.enact, exchange, Deed.waiting?, Pending.pushPass, hcommit]
    | endOfTick =>
      refine ⟨hunmoved, ?_, ?_⟩ <;>
        simp [Scene.enact, exchange, Deed.waiting?, Pending.pushTick, hcommit]

variable {b : RuleBook} {hs : Handlers} {pass : Pass} {s t : Scene} {ds : List Deed}

/-- Where no rule lands at once and no handler acts, a run puts all its deeds off. -/
theorem Run.putOff (hdefers : b.Defers pass) (hnone : ∀ id, hs.get id = none)
    (h : s.Run b hs pass ds t) : s.PutOff ds t := by
  induction h with
  | nil => exact .refl _
  | quiet _ ha ih => exact ih.alike ha
  | rule _ _ hr hd ih => exact ih.trans (putOff_enact _ (hd.commit ▸ hdefers _ _ hr))
  | place _ _ _ hget =>
    rw [hnone] at hget
    cases hget

/-- Each deed is one that a rule of the pass may do where the earlier deeds have led, and what its
actor finds there is the grid. -/
def DecidesOn (b : RuleBook) (pass : Pass) (g : Grid) (s : Scene) (ds : List Deed) : Prop :=
  ∀ es d, es ++ [d] <+: ds → (s.enactAll es).grid = g ∧
    ∃ a r, a.Stands (s.enactAll es) ∧ r ∈ b.rules pass a.id ∧ d.ByRule (s.enactAll es) a r

theorem DecidesOn.exists_rule {g : Grid} (h : DecidesOn b pass g s ds) {d : Deed} (hd : d ∈ ds) :
    ∃ id, ∃ r ∈ b.rules pass id, d.commit = r.commit := by
  obtain ⟨es, es', rfl⟩ := List.append_of_mem hd
  obtain ⟨-, a, r, -, hr, hbyRule⟩ := h es d ⟨es', by simp⟩
  exact ⟨a.id, r, hr, hbyRule.commit⟩

/-- So every rule has decided on the grid that the run began with. -/
theorem Run.decidesOn (hdefers : b.Defers pass) (hnone : ∀ id, hs.get id = none)
    (h : s.Run b hs pass ds t) : DecidesOn b pass s.grid s ds := by
  induction h with
  | nil =>
    intro es d hes
    simp at hes
  | quiet _ _ ih => exact ih
  | rule hrun hst hr hd ih =>
    intro es d hes
    rcases List.prefix_concat_iff.mp hes with hlast | hes
    · obtain ⟨rfl, hd'⟩ := List.append_inj' hlast rfl
      obtain rfl := List.singleton_inj.mp hd'
      have halike := hrun.enactAll.symm
      exact ⟨((hrun.putOff hdefers hnone).alike halike).unmoved.grid, _, _, hst.alike halike, hr,
        hd.alike halike⟩
    · exact ih es d hes
  | place _ _ _ hget =>
    rw [hnone] at hget
    cases hget

/-! Flushes, seen from the grid. -/

theorem apply_grid (s : Scene) (w : Write) : (s.apply w).2.grid = s.grid.receive w := by
  cases w with
  | set i id => rfl
  | exchange source target moving displaced =>
    simp only [apply, Grid.receive]
    split_ifs with hcurrent
    · obtain ⟨rfl, rfl⟩ := hcurrent
      rfl
    · rfl

theorem land_grid (ws : List Write) (s : Scene) :
    (s.land ws).grid = s.grid.receiveAll ws := by
  induction ws generalizing s with
  | nil => rfl
  | cons w ws ih =>
    rw [land_cons, ih, apply_grid]
    rfl

theorem flushPass_grid (s : Scene) :
    s.flushPass.2.grid = s.grid.receiveAll s.pending.pass.toList := by
  rw [flushPass_snd, land_grid]
  rfl

theorem flushTick_grid (s : Scene) :
    s.flushTick.2.grid = s.grid.receiveAll s.pending.tick.toList := by
  rw [flushTick_snd, land_grid]
  rfl

theorem tick_grid (b : RuleBook) (hs : Handlers) (s : Scene) :
    (World.tick b hs s).grid
      = (afterPasses b hs s).grid.receiveAll (afterPasses b hs s).pending.tick.toList := by
  have hactivity : ∀ t, (World.updateActivity b t).grid = t.grid := fun _ => rfl
  rw [tick_eq, hactivity, (alike_countWritten _).grid, flushTick_grid]

theorem runPass_grid (b : RuleBook) (hs : Handlers) (pass : Pass) (s : Scene) :
    (Scan.runPass b hs pass s).grid
      = (Scan.scan b hs pass s).grid.receiveAll (Scan.scan b hs pass s).pending.pass.toList := by
  rw [Scan.runPass_eq, (alike_countWritten _).grid, flushPass_grid]

end Scene

/-! Seeds that turn the empty cell to their right into another. -/

namespace Catalog

def seeder (commit : Commit) : Archetype where
  name := "seed"
  color := 0
  rules := [{
    sampler := .offsets [(1, 0)]
    matchers := [⟨.ids [MaterialId.empty], 0⟩]
    outcomes := [.transform none (some 1) .one .one]
    commit }]

def seeds (commit : Commit) : Catalog := empty.define 1 (seeder commit)

theorem seeds_get {commit : Commit} {m : MaterialId} {a : Archetype}
    (h : (seeds commit).get m = some a) : a = seeder commit := by
  simp only [seeds, get_define, get_empty] at h
  split_ifs at h
  exact (Option.some.inj h).symm

theorem compile_seeds (commit : Commit) : ∃ b, RuleBook.compile (seeds commit) = .ok b := by
  apply RuleBook.exists_compile
  intro id a ha r hr
  obtain rfl := seeds_get ha
  obtain rfl := List.mem_singleton.mp hr
  rfl

theorem commit_seeds {commit : Commit} {b : RuleBook} (hb : b.Reads (seeds commit)) {pass : Pass}
    {id : MaterialId} {r : CompiledRule} (hr : r ∈ b.rules pass id) : r.commit = commit := by
  obtain ⟨a, ha, u, hu, -, rfl⟩ := hb.exists_rule hr
  obtain rfl := seeds_get ha
  obtain rfl := List.mem_singleton.mp hu
  rfl

end Catalog

namespace World

variable {b : RuleBook} {w : World} {pass : Pass}

theorem putOff_passDeeds (hdefers : w.book.Defers pass) (hnone : ∀ id, w.handlers.get id = none)
    {ds : List Deed} (hds : ds <+: w.passDeeds pass) :
    (w.beforePass pass).PutOff ds ((w.beforePass pass).beginPass.enactAll ds) := by
  have hscan := Scan.scan_run w.book w.handlers pass (w.beforePass pass)
  obtain ⟨t, hrun⟩ := hscan.exists_beginning hds
  exact ((hrun.putOff hdefers hnone).of_beginPass).alike hrun.enactAll.symm

theorem putOff_beforeFlush (hdefers : w.book.Defers pass)
    (hnone : ∀ id, w.handlers.get id = none) :
    (w.beforePass pass).PutOff (w.passDeeds pass) (w.beforeFlush pass) :=
  ((Scan.scan_run w.book w.handlers pass (w.beforePass pass)).putOff hdefers hnone).of_beginPass

theorem decidesOn_passDeeds (hdefers : w.book.Defers pass)
    (hnone : ∀ id, w.handlers.get id = none) :
    Scene.DecidesOn w.book pass (w.beforePass pass).grid (w.beforePass pass).beginPass
      (w.passDeeds pass) :=
  (Scan.scan_run w.book w.handlers pass (w.beforePass pass)).decidesOn hdefers hnone

/-- What lands at the end of the tick leaves a pass nothing to flush. -/
theorem putOff_runPass (hlate : w.book.Postpones) (hnone : ∀ id, w.handlers.get id = none)
    (hempty : (w.beforePass pass).pending.pass = #[]) :
    (w.beforePass pass).PutOff (w.passDeeds pass)
      (Scan.runPass w.book w.handlers pass (w.beforePass pass)) := by
  have hputOff := putOff_beforeFlush (hlate.defers pass) hnone
  have hdeeds : (w.passDeeds pass).filterMap
      (Deed.waiting? (w.beforePass pass).grid .endOfPass) = [] := by
    refine List.filterMap_eq_nil_iff.mpr fun d hd => Deed.waiting?_of_ne ?_
    obtain ⟨id, r, hr, hcommit⟩ := (decidesOn_passDeeds (hlate.defers pass) hnone).exists_rule hd
    rw [hcommit, hlate pass id r hr]
    exact nofun
  have hqueue : (w.beforeFlush pass).pending.pass = #[] := by
    rw [← Array.toList_eq_nil_iff, hputOff.pass, hempty, hdeeds]
    rfl
  have hflush := Scene.alike_countWritten (w.beforeFlush pass).flushPass
  rw [Scene.flushPass_of_empty hqueue] at hflush
  exact hputOff.alike hflush

theorem Rested.putOff_rising (h : w.Rested w.book) (hlate : w.book.Postpones)
    (hnone : ∀ id, w.handlers.get id = none) :
    (beginTick w.scene).PutOff (w.passDeeds .rising) (w.beforePass .falling) :=
  putOff_runPass hlate hnone (h.beforePass_queue .rising)

theorem Rested.putOff_afterPasses (h : w.Rested w.book) (hlate : w.book.Postpones)
    (hnone : ∀ id, w.handlers.get id = none) :
    (beginTick w.scene).PutOff (w.passDeeds .rising ++ w.passDeeds .falling)
      (Scene.afterPasses w.book w.handlers w.scene) :=
  (h.putOff_rising hlate hnone).trans (putOff_runPass hlate hnone (h.beforePass_queue .falling))

theorem Rested.unmoved_beforePass (h : w.Rested w.book) (hlate : w.book.Postpones)
    (hnone : ∀ id, w.handlers.get id = none) (pass : Pass) :
    (beginTick w.scene).Unmoved (w.beforePass pass) := by
  cases pass with
  | rising => exact .refl _
  | falling => exact (h.putOff_rising hlate hnone).unmoved

/-- Where no handler acts and no rule of a pass lands at once, the pass changes nothing but stamps
until its flush. So each of its rules decides on the grid that the pass has found, and the grid it
leaves is this one with the writes of its deeds applied in their order. If all rules of both passes
land at the end of the tick, both decide on the grid of the tick's start, and that grid with the
writes of both is what the tick leaves. -/
theorem deferred_rules_read_a_frozen_grid (hw : Reached b w)
    (hnone : ∀ id, w.handlers.get id = none) :
    (∀ pass, b.Defers pass →
      (∀ ds, ds <+: w.passDeeds pass →
        (w.beforePass pass).PutOff ds ((w.beforePass pass).beginPass.enactAll ds)) ∧
      (w.beforePass pass).PutOff (w.passDeeds pass) (w.beforeFlush pass) ∧
      Scene.DecidesOn b pass (w.beforePass pass).grid (w.beforePass pass).beginPass
        (w.passDeeds pass) ∧
      (w.beforeFlush pass).pending.pass.toList
        = (w.passDeeds pass).filterMap (Deed.waiting? (w.beforePass pass).grid .endOfPass) ∧
      (Scan.runPass b w.handlers pass (w.beforePass pass)).grid
        = (w.beforePass pass).grid.receiveAll (w.beforeFlush pass).pending.pass.toList) ∧
    (b.Postpones →
      (∀ pass,
        (∀ ds, ds <+: w.passDeeds pass →
          (beginTick w.scene).Unmoved ((w.beforePass pass).beginPass.enactAll ds)) ∧
        Scene.DecidesOn b pass w.scene.grid (w.beforePass pass).beginPass (w.passDeeds pass)) ∧
      (beginTick w.scene).Unmoved (Scene.afterPasses b w.handlers w.scene) ∧
      w.step.scene.grid = w.scene.grid.receiveAll
        ((w.passDeeds .rising ++ w.passDeeds .falling).filterMap
          (Deed.waiting? w.scene.grid .endOfTick))) := by
  have hrested := hw.rested
  obtain rfl := hrested.book
  constructor
  · intro pass hdefers
    have hputOff := putOff_beforeFlush hdefers hnone
    refine ⟨fun ds hds => putOff_passDeeds hdefers hnone hds, hputOff,
      decidesOn_passDeeds hdefers hnone, ?_, ?_⟩
    · rw [hputOff.pass, hrested.beforePass_queue pass]
      rfl
    · rw [Scene.runPass_grid, ← hputOff.unmoved.grid]
      rfl
  · intro hlate
    have hbefore := hrested.unmoved_beforePass hlate hnone
    have hboth := hrested.putOff_afterPasses hlate hnone
    refine ⟨fun pass => ⟨?_, ?_⟩, hboth.unmoved, ?_⟩
    · intro ds hds
      exact (hbefore pass).trans (putOff_passDeeds (hlate.defers pass) hnone hds).unmoved
    · have hgrid : (w.beforePass pass).grid = w.scene.grid := (hbefore pass).grid
      exact hgrid ▸ decidesOn_passDeeds (hlate.defers pass) hnone
    · have hqueue : (beginTick w.scene).pending.tick = #[] :=
        congrArg Pending.tick hrested.pending
      rw [hrested.step_scene, Scene.tick_grid, hboth.unmoved.grid, hboth.tick, hqueue]
      rfl

/-- Seeds in a row do not run ahead: a pass lets the first seed its neighbour, and the whole tick no
more if both passes wait for its end. -/
theorem deferred_rules_read_a_frozen_grid_seeds :
    (∃ b w, RuleBook.compile (Catalog.seeds .endOfPass) = .ok b ∧ w = paintedRow b [(0, 1)] ∧
      (Scan.runPass b w.handlers .rising (w.beforePass .rising)).grid = w.scene.grid.set 1 1) ∧
    (∃ b w, RuleBook.compile (Catalog.seeds .endOfTick) = .ok b ∧ w = paintedRow b [(0, 1)] ∧
      w.step.scene.grid = w.scene.grid.receiveAll [.ofSet 1 1, .ofSet 1 1]) := by
  constructor
  · obtain ⟨b, hb⟩ := Catalog.compile_seeds .endOfPass
    have hdefers : b.Defers .rising := by
      intro id r hr
      rw [Catalog.commit_seeds (RuleBook.reads_of_compile hb) hr]
      exact nofun
    obtain ⟨-, -, -, hqueue, hgrid⟩ := (deferred_rules_read_a_frozen_grid
      (reached_paintedRow b [(0, 1)]) (paintedRow_handlers b _)).1 .rising hdefers
    have hwrites : ((paintedRow b [(0, 1)]).passDeeds .rising).filterMap (Deed.waiting?
        ((paintedRow b [(0, 1)]).beforePass .rising).grid .endOfPass) = [.ofSet 1 1] := by
      refine RuleBook.eq_of_compile hb (f := fun b => ((paintedRow b [(0, 1)]).passDeeds
        .rising).filterMap (Deed.waiting? ((paintedRow b [(0, 1)]).beforePass .rising).grid
          .endOfPass)) ?_
      decide +kernel
    refine ⟨b, _, hb, rfl, ?_⟩
    rw [hgrid, hqueue, hwrites]
    rfl
  · obtain ⟨b, hb⟩ := Catalog.compile_seeds .endOfTick
    obtain ⟨-, -, hgrid⟩ := (deferred_rules_read_a_frozen_grid
      (reached_paintedRow b [(0, 1)]) (paintedRow_handlers b _)).2
        fun pass id r hr => Catalog.commit_seeds (RuleBook.reads_of_compile hb) hr
    have hwrites : ((paintedRow b [(0, 1)]).passDeeds .rising
        ++ (paintedRow b [(0, 1)]).passDeeds .falling).filterMap (Deed.waiting?
          (paintedRow b [(0, 1)]).scene.grid .endOfTick) = [.ofSet 1 1, .ofSet 1 1] := by
      refine RuleBook.eq_of_compile hb (f := fun b => ((paintedRow b [(0, 1)]).passDeeds .rising
        ++ (paintedRow b [(0, 1)]).passDeeds .falling).filterMap (Deed.waiting?
          (paintedRow b [(0, 1)]).scene.grid .endOfTick)) ?_
      decide +kernel
    rw [hwrites] at hgrid
    exact ⟨b, _, hb, rfl, hgrid⟩

end World

end Sandfall
