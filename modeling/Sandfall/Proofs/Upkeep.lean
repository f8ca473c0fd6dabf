import Sandfall.Proofs.History

/-! Properties that last. If rules, handlers and landing writes keep a property of the cells, and
rules put off only writes with a property of their own, then both hold through every tick. -/

namespace Sandfall

/-- The cells have one property, and every write that waits has another. -/
structure Scene.Upholds (P : Grid → Prop) (Q : Write → Prop) (s : Scene) : Prop where
  sound : s.Sound
  cells : P s.grid
  pass : ∀ w ∈ s.pending.pass, Q w
  tick : ∀ w ∈ s.pending.tick, Q w

namespace Grid

def exchange (g : Grid) (source target : Nat) : Grid :=
  (g.set target (g.cell source)).set source (g.cell target)

end Grid

/-- What rules and handlers of a book do, and what lands of their writes, keeps the properties. -/
structure RuleBook.Maintains (b : RuleBook) (hs : Handlers) (P : Grid → Prop) (Q : Write → Prop) :
    Prop where
  rewrite : ∀ {pass : Pass} {s : Scene} {a : Actor} {r r' : CompiledRule} {i : Nat}
    {id : MaterialId}, s.Sound → P s.grid → a.Stands s → r ∈ b.rules pass a.id →
      Deed.ByRule s a r (.rewrite r' i id) →
        (r'.commit = .immediate → P (s.grid.set i id)) ∧
          (r'.commit ≠ .immediate → Q (.ofSet i id))
  move : ∀ {pass : Pass} {s : Scene} {a : Actor} {r r' : CompiledRule} {source target : Nat},
    s.Sound → P s.grid → a.Stands s → r ∈ b.rules pass a.id →
      Deed.ByRule s a r (.move r' source target) → P (s.grid.exchange source target) ∧
        Q (.ofExchange source target (s.grid.cell source) (s.grid.cell target))
  place : ∀ {s : Scene} {i : Nat} {id m : MaterialId} {h : Handler}, P s.grid →
    hs.get m = some h → i < s.grid.size → b.isKnown id → h.MayPlace s i id → P (s.grid.set i id)
  landed : ∀ {g : Grid} {i : UInt32} {id : MaterialId}, P g → Q (.set i id) → i.toNat < g.size →
    P (g.set i.toNat id)
  exchanged : ∀ {g : Grid} {source target : UInt32}, P g →
    Q (.exchange source target (g.cell source.toNat) (g.cell target.toNat)) →
      source.toNat < g.size → target.toNat < g.size → P (g.exchange source.toNat target.toNat)

namespace Scene

namespace Upholds

variable {P : Grid → Prop} {Q : Write → Prop} {b : RuleBook} {hs : Handlers} {s t : Scene}

theorem of_sameGrid (h : s.Upholds P Q) (hsound : t.Sound) (hgrid : t.grid = s.grid)
    (hpending : t.pending = s.pending) : t.Upholds P Q where
  sound := hsound
  cells := by rw [hgrid]; exact h.cells
  pass := by rw [hpending]; exact h.pass
  tick := by rw [hpending]; exact h.tick

theorem alike (h : s.Upholds P Q) (hst : s.Alike t) : t.Upholds P Q :=
  h.of_sameGrid (h.sound.alike hst) hst.grid hst.pending

theorem put (h : s.Upholds P Q) {i : Nat} {id : MaterialId} (hcells : P (s.grid.set i id)) :
    (s.put i id).Upholds P Q :=
  ⟨h.sound.put i id, hcells, h.pass, h.tick⟩

theorem exchangeNow (h : s.Upholds P Q) {source target : Nat}
    (hcells : P (s.grid.exchange source target)) :
    ((s.put target (s.grid.cell source)).put source (s.grid.cell target)).Upholds P Q :=
  ⟨(h.sound.put target _).put source _, hcells, h.pass, h.tick⟩

theorem pushPass (h : s.Upholds P Q) {w : Write} (hw : Q w) (hfits : w.Fits s.grid.size) :
    { s with pending := s.pending.pushPass w }.Upholds P Q := by
  refine ⟨h.sound.pushPass hfits, h.cells, ?_, h.tick⟩
  intro v hv
  rcases Array.mem_push.mp hv with hv | rfl
  · exact h.pass v hv
  · exact hw

theorem pushTick (h : s.Upholds P Q) {w : Write} (hw : Q w) (hfits : w.Fits s.grid.size) :
    { s with pending := s.pending.pushTick w }.Upholds P Q := by
  refine ⟨h.sound.pushTick hfits, h.cells, h.pass, ?_⟩
  intro v hv
  rcases Array.mem_push.mp hv with hv | rfl
  · exact h.tick v hv
  · exact hw

theorem write (h : s.Upholds P Q) (commit : Commit) {i : Nat} {id : MaterialId}
    (hi : i < s.grid.size) (hcells : commit = .immediate → P (s.grid.set i id))
    (hw : commit ≠ .immediate → Q (.ofSet i id)) : (s.write commit i id).Upholds P Q := by
  have hfits := h.sound.fits_ofSet hi id
  cases commit with
  | immediate => exact h.put (hcells rfl)
  | endOfPass => exact h.pushPass (hw nofun) hfits
  | endOfTick => exact h.pushTick (hw nofun) hfits

theorem exchange (h : s.Upholds P Q) (commit : Commit) {source target : Nat}
    (hi : source < s.grid.size) (hj : target < s.grid.size)
    (hcells : P (s.grid.exchange source target))
    (hw : Q (.ofExchange source target (s.grid.cell source) (s.grid.cell target))) :
    (s.exchange commit source target).Upholds P Q := by
  have hfits := h.sound.fits_ofExchange hi hj (s.grid.cell source) (s.grid.cell target)
  cases commit with
  | immediate => exact h.exchangeNow hcells
  | endOfPass => exact h.pushPass hw hfits
  | endOfTick => exact h.pushTick hw hfits

theorem enact (hb : b.Maintains hs P Q) (h : s.Upholds P Q) {pass : Pass} {a : Actor}
    {r : CompiledRule} {d : Deed} (ha : a.Stands s) (hr : r ∈ b.rules pass a.id)
    (hd : d.ByRule s a r) : (s.enact d).Upholds P Q := by
  have hnames := names_of_byRule ha hd
  cases d with
  | place i id => cases hd
  | rewrite r' i id =>
    obtain ⟨hcells, hw⟩ := hb.rewrite h.sound h.cells ha hr hd
    exact h.write r'.commit hnames hcells hw
  | move r' source target =>
    obtain ⟨hcells, hw⟩ := hb.move h.sound h.cells ha hr hd
    obtain ⟨hi, hj⟩ := hnames
    have hex := h.exchange r'.commit hi hj hcells hw
    exact hex.of_sameGrid (h.sound.move r' hi hj) (move_grid ..) (move_pending ..)

end Upholds

variable {P : Grid → Prop} {Q : Write → Prop} {b : RuleBook} {hs : Handlers} {s t : Scene}

theorem Run.upholds {pass : Pass} {ds : List Deed} (hb : b.Maintains hs P Q)
    (hrun : s.Run b hs pass ds t) (h : s.Upholds P Q) : t.Upholds P Q := by
  induction hrun with
  | nil => exact h
  | quiet _ ha ih => exact ih.alike ha
  | rule _ hst hr hd ih => exact ih.enact hb hst hr hd
  | place _ _ _ hget hi hk hmay ih => exact ih.put (hb.place ih.cells hget hi hk hmay)

namespace Upholds

theorem apply (hb : b.Maintains hs P Q) (h : s.Upholds P Q) {w : Write} (hw : Q w)
    (hfits : w.Fits s.grid.size) : (s.apply w).2.Upholds P Q := by
  cases w with
  | set i id => exact h.put (hb.landed h.cells hw hfits)
  | exchange source target moving displaced =>
    simp only [Scene.apply]
    split_ifs with hcells
    · obtain ⟨rfl, rfl⟩ := hcells
      exact h.exchangeNow (hb.exchanged h.cells hw hfits.1 hfits.2)
    · exact h

theorem land (hb : b.Maintains hs P Q) {ws : List Write} (h : s.Upholds P Q) (hws : ∀ w ∈ ws, Q w)
    (hfits : ∀ w ∈ ws, w.Fits s.grid.size) : (s.land ws).Upholds P Q := by
  induction ws generalizing s with
  | nil => exact h
  | cons w ws ih =>
    obtain ⟨hw, hws⟩ := List.forall_mem_cons.mp hws
    obtain ⟨hfit, hfits⟩ := List.forall_mem_cons.mp hfits
    refine ih (h.apply hb hw hfit) hws ?_
    rw [(sameSize_apply s w).size]
    exact hfits

theorem dropPass (h : s.Upholds P Q) : s.dropPass.Upholds P Q :=
  ⟨h.sound.dropPass, h.cells, by simp [Scene.dropPass], h.tick⟩

theorem dropTick (h : s.Upholds P Q) : s.dropTick.Upholds P Q :=
  ⟨h.sound.dropTick, h.cells, h.pass, by simp [Scene.dropTick]⟩

theorem flushPass (hb : b.Maintains hs P Q) (h : s.Upholds P Q) : s.flushPass.2.Upholds P Q := by
  rw [flushPass_snd]
  refine h.dropPass.land hb ?_ ?_
  · intro w hw
    exact h.pass w (Array.mem_toList_iff.mp hw)
  · intro w hw
    exact h.sound.pass w (Array.mem_toList_iff.mp hw)

theorem flushTick (hb : b.Maintains hs P Q) (h : s.Upholds P Q) : s.flushTick.2.Upholds P Q := by
  rw [flushTick_snd]
  refine h.dropTick.land hb ?_ ?_
  · intro w hw
    exact h.tick w (Array.mem_toList_iff.mp hw)
  · intro w hw
    exact h.sound.tick w (Array.mem_toList_iff.mp hw)

theorem beginPass (h : s.Upholds P Q) : s.beginPass.Upholds P Q :=
  h.of_sameGrid h.sound.beginPass rfl rfl

theorem beginTick (h : s.Upholds P Q) : (World.beginTick s).Upholds P Q :=
  h.of_sameGrid h.sound.beginTick rfl rfl

theorem scan (hb : b.Maintains hs P Q) (h : s.Upholds P Q) (pass : Pass) :
    (Scan.scan b hs pass s).Upholds P Q :=
  (Scan.scan_run b hs pass s).upholds hb h.beginPass

theorem runPass (hb : b.Maintains hs P Q) (h : s.Upholds P Q) (pass : Pass) :
    (Scan.runPass b hs pass s).Upholds P Q := by
  rw [Scan.runPass_eq]
  exact ((h.scan hb pass).flushPass hb).alike (alike_countWritten _)

theorem afterPasses (hb : b.Maintains hs P Q) (h : s.Upholds P Q) :
    (Scene.afterPasses b hs s).Upholds P Q :=
  (h.beginTick.runPass hb .rising).runPass hb .falling

theorem updateActivity (h : s.Upholds P Q) (b : RuleBook) :
    (World.updateActivity b s).Upholds P Q :=
  h.of_sameGrid (h.sound.updateActivity b) rfl rfl

theorem worldTick (hb : b.Maintains hs P Q) (h : s.Upholds P Q) :
    (World.tick b hs s).Upholds P Q := by
  rw [tick_eq]
  exact (((h.afterPasses hb).flushTick hb).alike (alike_countWritten _)).updateActivity b

end Upholds

end Scene

namespace World

variable {b : RuleBook} {hs : Handlers} {w : World} {P : Grid → Prop} {Q : Write → Prop}

theorem step_book (w : World) : w.step.book = w.book := by
  simp only [step]

theorem step_handlers (w : World) : w.step.handlers = w.handlers := by
  simp only [step]

theorem stepMany_handlers (w : World) (n : Nat) : (w.stepMany n).handlers = w.handlers := by
  induction n generalizing w with
  | zero => rfl
  | succ n ih => exact (ih w.step).trans (step_handlers w)

theorem Rested.step_scene (h : w.Rested b) : w.step.scene = tick b w.handlers w.scene := by
  simp only [step, h.book]

/-- Between two commands no write waits, so only the cells matter. -/
theorem Rested.upholds (h : w.Rested b) (hP : P w.scene.grid) (Q : Write → Prop) :
    w.scene.Upholds P Q where
  sound := h.sound
  cells := hP
  pass := by simp [h.pending, Pending.empty]
  tick := by simp [h.pending, Pending.empty]

theorem stepMany_upholds (hb : b.Maintains hs P Q) (n : Nat) (hbook : w.book = b)
    (hhandlers : w.handlers = hs) (h : w.scene.Upholds P Q) :
    (w.stepMany n).scene.Upholds P Q := by
  induction n generalizing w with
  | zero => exact h
  | succ n ih =>
    have hstep : w.step.scene.Upholds P Q := by
      simpa only [step, hbook, hhandlers] using h.worldTick hb
    exact ih ((step_book w).trans hbook) ((step_handlers w).trans hhandlers) hstep

end World

end Sandfall
