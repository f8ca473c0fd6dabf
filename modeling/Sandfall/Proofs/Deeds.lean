import Sandfall.Scan
import Sandfall.Proofs.Cells

/-! What a pass does to the cells, deed by deed. A deed puts a material down, rewrites a cell or
exchanges two cells; `Run` says when each may be done. The deeds of a turn, a row and a pass are
lists, and every scan is a run of its list, so a property of runs is proved once per kind of deed. -/

namespace Sandfall

inductive Deed where
  /-- A handler puts a material down. -/
  | place (i : Nat) (id : MaterialId)
  /-- A rule rewrites a cell, now or later. -/
  | rewrite (r : CompiledRule) (i : Nat) (id : MaterialId)
  /-- A rule exchanges two cells, now or later. -/
  | move (r : CompiledRule) (source target : Nat)

def Scene.enact (s : Scene) : Deed → Scene
  | .place i id => s.put i id
  | .rewrite r i id => s.write r.commit i id
  | .move r source target => s.move r source target

/-- The scenes differ in draws, counters and notes only. -/
structure Scene.Alike (s t : Scene) : Prop where
  grid : t.grid = s.grid
  chunks : t.chunks = s.chunks
  pending : t.pending = s.pending
  trace : t.trace = s.trace

theorem Scene.Alike.isStamped {s t : Scene} (h : s.Alike t) (i : Nat) :
    t.isStamped i = s.isStamped i := by
  simp only [Scene.isStamped, h.chunks]

theorem Scene.Alike.symm {s t : Scene} (h : s.Alike t) : t.Alike s :=
  ⟨h.grid.symm, h.chunks.symm, h.pending.symm, h.trace.symm⟩

theorem Scene.Alike.trans {s t u : Scene} (h : s.Alike t) (h' : t.Alike u) : s.Alike u where
  grid := h'.grid.trans h.grid
  chunks := h'.chunks.trans h.chunks
  pending := h'.pending.trans h.pending
  trace := h'.trace.trans h.trace

namespace Scene

theorem alike_refl (s : Scene) : s.Alike s := ⟨rfl, rfl, rfl, rfl⟩

theorem alike_chance (s : Scene) (p : Binary32) : s.Alike (s.chance p).2 := ⟨rfl, rfl, rfl, rfl⟩

theorem alike_below (s : Scene) (n : Nat) : s.Alike (s.below n).2 := ⟨rfl, rfl, rfl, rfl⟩

theorem alike_unit (s : Scene) : s.Alike s.unit.2 := ⟨rfl, rfl, rfl, rfl⟩

theorem alike_note (s : Scene) (n : Note) : s.Alike (s.note n) := ⟨rfl, rfl, rfl, rfl⟩

theorem alike_countVisited (s : Scene) : s.Alike s.countVisited := ⟨rfl, rfl, rfl, rfl⟩

theorem alike_countAttempted (s : Scene) : s.Alike s.countAttempted := ⟨rfl, rfl, rfl, rfl⟩

theorem alike_countFired (s : Scene) : s.Alike s.countFired := ⟨rfl, rfl, rfl, rfl⟩

theorem alike_countHandled (s : Scene) : s.Alike s.countHandled := ⟨rfl, rfl, rfl, rfl⟩

end Scene

/-- The actor stands in its cell, as it was found, and nothing has claimed the cell. -/
structure Actor.Stands (a : Actor) (s : Scene) : Prop where
  column : a.x < s.grid.width
  row : a.y < s.grid.height
  index : a.index = s.grid.index a.x a.y
  material : s.grid.cell a.index = a.id
  free : s.isStamped a.index = false

/-- The actor's place is a cell of the grid, whatever may be in it. -/
structure Actor.Placed (a : Actor) (s : Scene) : Prop where
  column : a.x < s.grid.width
  row : a.y < s.grid.height
  index : a.index = s.grid.index a.x a.y

namespace Actor.Placed

variable {a : Actor} {s t : Scene}

theorem inside (h : a.Placed s) : a.index < s.grid.size := by
  rw [h.index]
  exact Grid.index_lt h.column h.row

theorem of_sameSize (h : a.Placed s) (hsize : s.SameSize t) : a.Placed t where
  column := by rw [hsize.1]; exact h.column
  row := by rw [hsize.2]; exact h.row
  index := by rw [hsize.index]; exact h.index

end Actor.Placed

namespace Actor.Stands

variable {a : Actor} {s t : Scene}

theorem placed (h : a.Stands s) : a.Placed s := ⟨h.column, h.row, h.index⟩

theorem inside (h : a.Stands s) : a.index < s.grid.size := h.placed.inside

/-- The actor stands as long as its own cell is left alone. -/
theorem of_frame (h : a.Stands s) (hsize : s.SameSize t)
    (hcell : t.grid.cell a.index = s.grid.cell a.index)
    (hstamp : t.isStamped a.index = s.isStamped a.index) : a.Stands t where
  column := by rw [hsize.1]; exact h.column
  row := by rw [hsize.2]; exact h.row
  index := by rw [hsize.index]; exact h.index
  material := by rw [hcell]; exact h.material
  free := by rw [hstamp]; exact h.free

theorem alike (h : a.Stands s) (hst : s.Alike t) : a.Stands t :=
  h.of_frame ⟨by rw [hst.grid], by rw [hst.grid]⟩ (by rw [hst.grid]) (hst.isStamped _)

theorem write (h : a.Stands s) (commit : Commit) {i : Nat} (hi : i ≠ a.index) (id : MaterialId) :
    a.Stands (s.write commit i id) :=
  h.of_frame (Scene.sameSize_write s commit i id) (Scene.write_cell_of_ne s commit hi id)
    ((Scene.write_chunks s commit i id).isStamped _)

theorem move (h : a.Stands s) (r : CompiledRule) {source target : Nat} (hs : source ≠ a.index)
    (ht : target ≠ a.index) : a.Stands (s.move r source target) :=
  h.of_frame (Scene.sameSize_move s r source target)
    (by rw [Scene.move_grid, Scene.exchange_cell_of_ne s r.commit hs ht])
    (Scene.move_isStamped_of_ne s r hs ht)

end Actor.Stands

def CompiledRule.Sends (r : CompiledRule) (id : MaterialId) (o : Outcome) : Prop :=
  r.slot id ≠ noMatch ∧ r.outcome (r.slot id) = o

theorem CompiledRule.Sends.mem {r : CompiledRule} {id : MaterialId} {o : Outcome}
    (h : r.Sends id o) (ho : o ≠ .noop) : o ∈ r.outcomes := by
  obtain ⟨-, hout⟩ := h
  rw [outcome, Array.getD_eq_getD_getElem?] at hout
  cases hget : r.outcomes[(r.slot id).toNat]? with
  | none =>
    rw [hget] at hout
    exact absurd hout.symm ho
  | some o' =>
    rw [hget] at hout
    subst hout
    exact Array.mem_of_getElem? hget

/-- What a rule may do on behalf of an actor, given the scene. -/
inductive Deed.ByRule (s : Scene) (a : Actor) (r : CompiledRule) : Deed → Prop
  | candidate {i : Nat} {this : Option MaterialId} {into : MaterialId} {p q : Binary32} :
    i < s.grid.size → r.Sends (s.grid.cell i) (.transform this (some into) p q) →
      ByRule s a r (.rewrite r i into)
  | actor {id this : MaterialId} {other : Option MaterialId} {p q : Binary32} :
    r.Sends id (.transform (some this) other p q) → ByRule s a r (.rewrite r a.index this)
  | swap {t : Nat} {o : Outcome} :
    t < s.grid.size → s.isStamped t = false → r.Sends (s.grid.cell t) o →
      (o = .densitySwap ∨ ∃ p, o = .swap p) → ByRule s a r (.move r a.index t)
  | throw {t : Nat} {id : MaterialId} {reach : Int8} {allow : IdSet} :
    t < s.grid.size → s.isStamped t = false → r.Sends id (.directionSwap reach allow) →
      0 < reach.toInt → allow.contains (s.grid.cell t) → ByRule s a r (.move r a.index t)
  | pull {i t : Nat} {reach : Int8} {allow : IdSet} :
    i < s.grid.size → t < s.grid.size → s.isStamped i = false → s.isStamped t = false →
      i ≠ a.index → t ≠ a.index → t ≠ i → r.Sends (s.grid.cell i) (.directionSwap reach allow) →
      reach.toInt ≤ 0 → allow.contains (s.grid.cell t) → ByRule s a r (.move r i t)

/-- The handler may put the material into the cell: an emitter fills empty cells with its own. -/
def Handler.MayPlace (s : Scene) (i : Nat) (id : MaterialId) : Handler → Prop
  | .emitter material _ => id = material ∧ s.grid.cell i = MaterialId.empty
  | .script _ => True

/-- The scene comes from another by the deeds, in their order. -/
inductive Scene.Run (b : RuleBook) (hs : Handlers) (pass : Pass) :
    Scene → List Deed → Scene → Prop
  | nil (s : Scene) : Run b hs pass s [] s
  | quiet {s t u : Scene} {ds : List Deed} : Run b hs pass s ds t → t.Alike u → Run b hs pass s ds u
  | rule {s t : Scene} {ds : List Deed} {a : Actor} {r : CompiledRule} {d : Deed} :
    Run b hs pass s ds t → a.Stands t → r ∈ b.rules pass a.id → d.ByRule t a r →
      Run b hs pass s (ds ++ [d]) (t.enact d)
  | place {s t : Scene} {ds : List Deed} {i : Nat} {id m : MaterialId} {h : Handler} :
    Run b hs pass s ds t → pass = .falling → b.isSpecial m → hs.get m = some h →
      i < t.grid.size → b.isKnown id → h.MayPlace t i id →
        Run b hs pass s (ds ++ [.place i id]) (t.enact (.place i id))

namespace Scene.Run

variable {b : RuleBook} {hs : Handlers} {pass : Pass} {s t u : Scene} {ds es : List Deed}

theorem trans (h : Run b hs pass s ds t) (h' : Run b hs pass t es u) :
    Run b hs pass s (ds ++ es) u := by
  induction h' with
  | nil => rwa [List.append_nil]
  | quiet _ ha ih => exact ih.quiet ha
  | rule _ hst hr hd ih =>
    rw [← List.append_assoc]
    exact ih.rule hst hr hd
  | place _ hp hs hh hi hk hm ih =>
    rw [← List.append_assoc]
    exact ih.place hp hs hh hi hk hm

theorem of_alike (h : s.Alike t) : Run b hs pass s [] t := (Run.nil s).quiet h

theorem after (h : s.Alike t) (h' : Run b hs pass t ds u) : Run b hs pass s ds u :=
  (of_alike h).trans h'

theorem of_rule {a : Actor} {r : CompiledRule} {d : Deed} (hst : a.Stands s)
    (hr : r ∈ b.rules pass a.id) (hd : d.ByRule s a r) : Run b hs pass s [d] (s.enact d) :=
  (Run.nil s).rule hst hr hd

theorem of_place {i : Nat} {id m : MaterialId} {h : Handler} (hp : pass = .falling)
    (hs' : b.isSpecial m) (hh : hs.get m = some h) (hi : i < s.grid.size) (hk : b.isKnown id)
    (hm : h.MayPlace s i id) : Run b hs pass s [.place i id] (s.put i id) :=
  (Run.nil s).place hp hs' hh hi hk hm

theorem sameSize (h : Run b hs pass s ds t) : s.SameSize t := by
  induction h with
  | nil => exact ⟨rfl, rfl⟩
  | quiet _ ha ih => exact ⟨by rw [ha.grid, ih.1], by rw [ha.grid, ih.2]⟩
  | @rule t ds a r d _ _ _ _ ih =>
    have henact : t.SameSize (t.enact d) := by
      cases d with
      | place i id => exact ⟨rfl, rfl⟩
      | rewrite r i id => exact sameSize_write t r.commit i id
      | move r source target => exact sameSize_move t r source target
    exact ⟨henact.1.trans ih.1, henact.2.trans ih.2⟩
  | place _ _ _ _ _ _ _ ih => exact ih

/-- What holds of the deeds of rules and of handlers holds of all deeds of a run. -/
theorem forall_deeds {P : Deed → Prop} (h : Run b hs pass s ds t)
    (hrule : ∀ u a r d, s.SameSize u → a.Stands u → r ∈ b.rules pass a.id → d.ByRule u a r → P d)
    (hplace : ∀ u i id, s.SameSize u → i < u.grid.size → P (.place i id)) : ∀ d ∈ ds, P d := by
  induction h with
  | nil => simp
  | quiet _ _ ih => exact ih
  | rule hrun hst hr hd ih =>
    refine List.forall_mem_append.mpr ⟨ih, List.forall_mem_singleton.mpr ?_⟩
    exact hrule _ _ _ _ hrun.sameSize hst hr hd
  | place hrun _ _ _ hi _ _ ih =>
    refine List.forall_mem_append.mpr ⟨ih, List.forall_mem_singleton.mpr ?_⟩
    exact hplace _ _ _ hrun.sameSize hi

end Scene.Run

def foldDeeds {α : Type} (step : Scene → α → Scene) (deeds : Scene → α → List Deed) :
    Scene → List α → List Deed
  | _, [] => []
  | s, x :: xs => deeds s x ++ foldDeeds step deeds (step s x) xs

/-- A fold is a run if its steps are, as long as the dimensions stay. -/
theorem Scene.Run.foldl {α : Type} {b : RuleBook} {hs : Handlers} {pass : Pass}
    {step : Scene → α → Scene} {deeds : Scene → α → List Deed} {xs : List α} {s : Scene}
    (h : ∀ t, s.SameSize t → ∀ x ∈ xs, Run b hs pass t (deeds t x) (step t x)) :
    Run b hs pass s (foldDeeds step deeds s xs) (xs.foldl step s) := by
  induction xs generalizing s with
  | nil => exact .nil s
  | cons x xs ih =>
    have hx := h s ⟨rfl, rfl⟩ x (List.mem_cons_self ..)
    refine hx.trans (ih ?_)
    intro t ht y hy
    exact h t ⟨ht.1.trans hx.sameSize.1, ht.2.trans hx.sameSize.2⟩ y (List.mem_cons_of_mem _ hy)

end Sandfall
