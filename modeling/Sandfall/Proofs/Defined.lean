import Sandfall.Proofs.Resume

/-! What a grid holds. Brushes, saves and handlers ask the book before a material goes into the
grid, and a book knows all that its rules rewrite into. So every cell is empty or of a material that
the catalog defines, after every command and after every deed within a step, and what waits to be
written is defined as well. -/

namespace Sandfall

namespace Catalog

variable {c : Catalog} {id : MaterialId}

def Defines (c : Catalog) (id : MaterialId) : Prop :=
  id = MaterialId.empty ∨ ∃ a, c.get id = some a

theorem isKnown_iff : c.isKnown id = true ↔ c.Defines id := by
  rw [isKnown, Bool.or_eq_true, decide_eq_true_iff, Option.isSome_iff_exists, Defines]

theorem Reached.not_defines_outside (hc : c.Reached) : ¬ c.Defines MaterialId.outside := by
  rintro (hempty | ⟨a, ha⟩)
  · exact absurd hempty (by decide)
  · rw [hc.get_outside] at ha
    cases ha

end Catalog

namespace Scene

/-- The cells are defined, and so are the materials that wait to be written. -/
structure Defined (c : Catalog) (s : Scene) : Prop where
  cells : ∀ i < s.grid.size, c.Defines (s.grid.cell i)
  writes : ∀ i id, .set i id ∈ s.pending.pass ∨ .set i id ∈ s.pending.tick → c.Defines id

variable {b : RuleBook} {c : Catalog} {hs : Handlers} {pass : Pass} {s t : Scene}
  {ds es : List Deed}

theorem Upholds.defined (hb : b.Reads c) (h : s.Upholds (Grid.Known b) (Write.Known b)) :
    s.Defined c where
  cells i hi := Catalog.isKnown_iff.mp ((hb.known _).symm.trans (h.cells.cells i hi))
  writes i id hid := by
    have hknown : b.isKnown id = true := hid.elim (h.pass _) (h.tick _)
    exact Catalog.isKnown_iff.mp ((hb.known id).symm.trans hknown)

theorem Defined.of_alike (h : t.Defined c) (hst : s.Alike t) : s.Defined c where
  cells := by
    rw [← hst.grid]
    exact h.cells
  writes := by
    rw [← hst.pending]
    exact h.writes

theorem Run.exists_beginning (h : s.Run b hs pass ds t) (hes : es <+: ds) :
    ∃ u, s.Run b hs pass es u := by
  induction h with
  | nil =>
    rw [List.prefix_nil.mp hes]
    exact ⟨_, .nil _⟩
  | quiet _ _ ih => exact ih hes
  | rule hrun hst hr hd ih =>
    rcases List.prefix_concat_iff.mp hes with rfl | hes
    · exact ⟨_, hrun.rule hst hr hd⟩
    · exact ih hes
  | place hrun hp hspecial hget hi hk hm ih =>
    rcases List.prefix_concat_iff.mp hes with rfl | hes
    · exact ⟨_, hrun.place hp hspecial hget hi hk hm⟩
    · exact ih hes

end Scene

namespace World

variable {b : RuleBook} {w : World}

/-- Between commands no write waits and every cell is empty or of a defined material, which is never
the mark for what lies outside. The same holds of the cells and of the waiting writes after every
deed of a step. -/
theorem cells_are_defined {c : Catalog} (hc : c.Reached) (hb : RuleBook.compile c = .ok b)
    (hw : Reached b w) :
    w.book.catalog = c ∧ w.scene.pending = .empty ∧
      (∀ i < w.scene.grid.size, c.Defines (w.scene.grid.cell i) ∧
        w.scene.grid.cell i ≠ MaterialId.outside) ∧
      ∀ pass ds, ds <+: w.passDeeds pass →
        ((w.beforePass pass).beginPass.enactAll ds).Defined c := by
  obtain rfl : w.book = b := hw.rested.book
  have hreads := RuleBook.reads_of_compile hb
  have hmaintains := hreads.maintains_known w.handlers
  have hupholds := hw.rested.upholds (hw.ready hreads).cells (Write.Known w.book)
  refine ⟨hreads.catalog, hw.rested.pending, ?_, ?_⟩
  · intro i hi
    have hdefined := (hupholds.defined hreads).cells i hi
    exact ⟨hdefined, fun houtside => hc.not_defines_outside (houtside ▸ hdefined)⟩
  · intro pass ds hds
    have hbefore : (w.beforePass pass).Upholds (Grid.Known w.book) (Write.Known w.book) := by
      cases pass with
      | rising => exact hupholds.beginTick
      | falling => exact hupholds.beginTick.runPass hmaintains .rising
    have hscan := Scan.scan_run w.book w.handlers pass (w.beforePass pass)
    obtain ⟨u, hrun⟩ := hscan.exists_beginning hds
    exact ((hrun.upholds hmaintains hbefore.beginPass).defined hreads).of_alike hrun.enactAll

/-- A spring is told to make a material that nobody has defined, and never does. -/
theorem cells_are_defined_spring :
    ∃ b w, RuleBook.compile Catalog.fortress = .ok b ∧ Reached b w ∧ b.isKnown 77 = false ∧
      w.handlers.get 4 = some (.emitter 77 .one) ∧
        ∀ n, ∀ i < (w.stepMany n).scene.grid.size, (w.stepMany n).scene.grid.cell i ≠ 77 := by
  obtain ⟨b, hb⟩ := Catalog.compile_fortress
  have hreads := RuleBook.reads_of_compile hb
  obtain ⟨w, hw⟩ : ∃ w, w = (paintedRow b [(0, 4), (2, 3)]).obey
      (.bind "spring" (.emitter 77 .one)) := ⟨_, rfl⟩
  have hreached : Reached b w := hw ▸ (reached_paintedRow b _).obey _
  have hkey : b.handlerKey 4 = some "spring" := by
    rw [RuleBook.handlerKey, hreads.special, hreads.catalog]
    decide +kernel
  have hbound : w.handlers.get 4 = some (.emitter 77 .one) := by
    rw [hw, obey, bind, Handlers.get_bind_eq, (reached_paintedRow b _).rested.book]
    exact if_pos ⟨by decide, hkey⟩
  refine ⟨b, w, hb, hreached, (hreads.known 77).trans (by decide +kernel), hbound, ?_⟩
  intro n i hi hcell
  obtain ⟨-, -, hcells, -⟩ :=
    cells_are_defined Catalog.reached_fortress hb (hreached.stepMany n)
  have hdefined := (hcells i hi).1
  rw [hcell, ← Catalog.isKnown_iff] at hdefined
  exact absurd hdefined (by decide +kernel)

end World

end Sandfall
