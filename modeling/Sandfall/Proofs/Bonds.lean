import Sandfall.Proofs.Lockstep
import Sandfall.Proofs.Upkeep

/-! Chunk maps that keep worlds in lockstep: maps of one size that never sleep, and maps that differ
in stamps and counters only. What the owner of two worlds asks of both keeps them matched. -/

namespace Sandfall

namespace Chunks

/-- Maps of one size, all of whose chunks are active for good. -/
structure BothAwake (c d : Chunks) : Prop where
  left : c.Awake
  right : d.Awake
  width : d.width = c.width
  height : d.height = c.height

theorem bond_bothAwake : Bond BothAwake where
  width h := h.width
  height h := h.height
  active := by
    intro c d h i
    have hcount : d.count = c.count := by
      simp only [count, h.width, h.height]
    rcases Nat.lt_or_ge i c.count with hi | hi
    · rw [h.left.active i hi, h.right.active i (hcount ▸ hi)]
    · rw [c.isActive_of_count_le hi, d.isActive_of_count_le (hcount ▸ hi)]
  stamps h s s' :=
    ⟨⟨h.left.disabled, h.left.active⟩, ⟨h.right.disabled, h.right.active⟩, h.width, h.height⟩
  touch := by
    intro c d h i
    refine ⟨h.left.touch i, h.right.touch i, ?_, ?_⟩
    · rw [(sameStamps_touch d i).width, (sameStamps_touch c i).width, h.width]
    · rw [(sameStamps_touch d i).height, (sameStamps_touch c i).height, h.height]
  wakeAll := by
    intro c d h
    refine ⟨awake_wakeAll h.left.disabled, awake_wakeAll h.right.disabled, ?_, ?_⟩
    · rw [(sameStamps_wakeAll d).width, (sameStamps_wakeAll c).width, h.width]
    · rw [(sameStamps_wakeAll d).height, (sameStamps_wakeAll c).height, h.height]
  beginTick h :=
    ⟨⟨h.left.disabled, h.left.active⟩, ⟨h.right.disabled, h.right.active⟩, h.width, h.height⟩
  update := by
    intro c d h g keepsAwake
    have hc := sameStamps_updateActivity c g keepsAwake
    have hd := sameStamps_updateActivity d g keepsAwake
    refine ⟨h.left.updateActivity g keepsAwake, h.right.updateActivity g keepsAwake, ?_, ?_⟩
    · rw [hd.width, hc.width, h.width]
    · rw [hd.height, hc.height, h.height]

/-- The maps differ in stamps and counters only. -/
def Twin (c d : Chunks) : Prop := ∃ stamps woke slept, d = { c with stamps, woke, slept }

namespace Twin

variable {c d : Chunks}

theorem refl (c : Chunks) : Twin c c := ⟨_, _, _, rfl⟩

theorem wake (h : Twin c d) (i : Nat) : Twin (c.wake i) (d.wake i) := by
  obtain ⟨_, _, _, rfl⟩ := h
  obtain ⟨_, hc⟩ := wake_eq c i
  obtain ⟨_, hd⟩ := wake_eq { c with stamps := _, woke := _, slept := _ } i
  rw [hc, hd]
  exact ⟨_, _, _, rfl⟩

theorem touch (h : Twin c d) (i : Nat) : Twin (c.touch i) (d.touch i) := by
  obtain ⟨_, _, _, hwake⟩ := h.wake i
  simp only [Chunks.touch, hwake]
  exact ⟨_, _, _, rfl⟩

theorem wakeAll (h : Twin c d) : Twin c.wakeAll d.wakeAll := by
  have hcount : d.count = c.count := by
    obtain ⟨_, _, _, rfl⟩ := h
    rfl
  obtain ⟨_, _, _, hfold⟩ := foldl_related wake (List.range c.count) h
  simp only [Chunks.wakeAll, hcount, hfold]
  exact ⟨_, _, _, rfl⟩

theorem noteChange (h : Twin c d) (i : Nat) (sum : UInt32) :
    Twin (c.noteChange i sum) (d.noteChange i sum) := by
  obtain ⟨_, _, _, rfl⟩ := h
  apply foldl_related wake
  exact ⟨_, _, _, rfl⟩

theorem noteQuiet (h : Twin c d) (keepsAwake : Nat → Bool) (i : Nat) :
    Twin (c.noteQuiet keepsAwake i) (d.noteQuiet keepsAwake i) := by
  obtain ⟨stamps, woke, slept, rfl⟩ := h
  by_cases hstays : (!c.sleepingEnabled || tickUp (c.sleep[i]?.getD 0) < sleepThreshold) = true
  · have hc : c.noteQuiet keepsAwake i = _ := if_pos hstays
    have hd : noteQuiet { c with stamps, woke, slept } keepsAwake i = _ := if_pos hstays
    rw [hc, hd]
    exact ⟨_, _, _, rfl⟩
  · by_cases hkept : (c.cellsOf i).any keepsAwake = true
    · have hc : c.noteQuiet keepsAwake i = _ := (if_neg hstays).trans (if_pos hkept)
      have hd : noteQuiet { c with stamps, woke, slept } keepsAwake i = _ :=
        (if_neg hstays).trans (if_pos hkept)
      rw [hc, hd]
      exact ⟨_, _, _, rfl⟩
    · have hc : c.noteQuiet keepsAwake i = _ := (if_neg hstays).trans (if_neg hkept)
      have hd : noteQuiet { c with stamps, woke, slept } keepsAwake i = _ :=
        (if_neg hstays).trans (if_neg hkept)
      rw [hc, hd]
      exact ⟨_, _, _, rfl⟩

theorem updateActivity (h : Twin c d) (g : Grid) (keepsAwake : MaterialId → Bool) :
    Twin (c.updateActivity g keepsAwake) (d.updateActivity g keepsAwake) := by
  have hsums : d.activeSums g = c.activeSums g := by
    obtain ⟨_, _, _, rfl⟩ := h
    rfl
  simp only [Chunks.updateActivity, hsums]
  apply foldl_related _ _ h
  rintro c d h ⟨i, sum⟩
  have hseen : d.checksums[i]?.getD 0 = c.checksums[i]?.getD 0 := by
    obtain ⟨_, _, _, rfl⟩ := h
    rfl
  simp only [reconcile, hseen]
  split_ifs
  · exact h.noteChange i sum
  · exact h.noteQuiet _ i

end Twin

theorem bond_twin : Bond Twin where
  width := by
    rintro c d ⟨_, _, _, rfl⟩
    rfl
  height := by
    rintro c d ⟨_, _, _, rfl⟩
    rfl
  active := by
    rintro c d ⟨_, _, _, rfl⟩ i
    rfl
  stamps := by
    rintro c d ⟨_, _, _, rfl⟩ s s'
    exact ⟨_, _, _, rfl⟩
  touch h i := h.touch i
  wakeAll h := h.wakeAll
  beginTick := by
    rintro c d ⟨_, _, _, rfl⟩
    exact ⟨_, _, _, rfl⟩
  update h g keepsAwake := h.updateActivity g keepsAwake

theorem Bond.wakeDisc {K : Chunks → Chunks → Prop} (hK : Bond K) {c d : Chunks} (h : K c d)
    (cx cy radius : Int32) : K (c.wakeDisc cx cy radius) (d.wakeDisc cx cy radius) := by
  simp only [Chunks.wakeDisc, hK.width h, hK.height h]
  split_ifs
  · exact h
  · apply foldl_related _ _ h
    intro c d h ky
    apply foldl_related _ _ h
    intro c d h kx
    have hbounds : d.bounds kx ky = c.bounds kx ky := by
      simp only [bounds, hK.width h, hK.height h]
    have hmeets : ∀ r, d.meetsDisc cx cy r kx ky = c.meetsDisc cx cy r kx ky := by
      intro r
      simp only [meetsDisc, hbounds]
    have hindex : d.indexOf kx ky = c.indexOf kx ky := by
      simp only [indexOf, across, hK.width h]
    rw [hmeets, hindex]
    split_ifs
    · exact hK.touch h _
    · exact h

end Chunks

/-- What goes on in a world without leaving its run: no save and no seed comes in, and no setting
changes. -/
def Command.plays : Command → Bool
  | .set .. => true
  | .fillDisc .. => true
  | .clear => true
  | .step => true
  | _ => false

namespace World

/-- The worlds have the same rules, the same cells and the same clock, and related chunk maps. -/
structure Matched (K : Chunks → Chunks → Prop) (v w : World) : Prop where
  book : w.book = v.book
  handlers : w.handlers = v.handlers
  seed : w.seed = v.seed
  steps : w.steps = v.steps
  scene : v.scene.Matched K w.scene

namespace Matched

variable {K : Chunks → Chunks → Prop} {v w : World}

theorem save (h : Matched K v w) : w.save = v.save := by
  simp only [World.save, width, height, h.scene.grid, h.scene.random, h.steps, h.seed]

section

variable (hK : Chunks.Bond K)
include hK

theorem set (h : Matched K v w) (x y : Int) (id : MaterialId) :
    (w.set x y id).1 = (v.set x y id).1 ∧ Matched K (v.set x y id).2 (w.set x y id).2 := by
  simp only [World.set, Scene.place, h.book, h.scene.grid]
  split_ifs
  · exact ⟨rfl, rfl, h.handlers, h.seed, h.steps, h.scene.put hK _ id⟩
  · exact ⟨rfl, rfl, h.handlers, h.seed, h.steps, h.scene⟩

omit hK in
theorem repaint (h : Matched K v w) {g g' : Grid} {c d : Chunks} (hg : g' = g) (hcd : K c d) :
    Matched K { v with scene := { v.scene with grid := g, chunks := c } }
      { w with scene := { w.scene with grid := g', chunks := d } } where
  book := h.book
  handlers := h.handlers
  seed := h.seed
  steps := h.steps
  scene := ⟨hg, h.scene.pending, h.scene.random, h.scene.live, hcd⟩

theorem fillDisc (h : Matched K v w) (cx cy radius : Int32) (id : MaterialId) :
    (w.fillDisc cx cy radius id).1 = (v.fillDisc cx cy radius id).1 ∧
      Matched K (v.fillDisc cx cy radius id).2 (w.fillDisc cx cy radius id).2 := by
  have hwoken := hK.wakeDisc h.scene.chunks cx cy radius
  have hknown : w.book.isKnown id = v.book.isKnown id := by rw [h.book]
  have hcells : discCells w.scene.grid cx cy radius = discCells v.scene.grid cx cy radius := by
    rw [h.scene.grid]
  unfold World.fillDisc
  rw [hknown, hcells]
  split_ifs
  · exact ⟨rfl, h⟩
  · dsimp only
    split_ifs
    · exact ⟨rfl, h.repaint (by rw [h.scene.grid]) h.scene.chunks⟩
    · exact ⟨rfl, h.repaint (by rw [h.scene.grid]) hwoken⟩

theorem clear (h : Matched K v w) : Matched K v.clear w.clear where
  book := h.book
  handlers := h.handlers
  seed := h.seed
  steps := h.steps
  scene := ⟨congrArg Grid.clear h.scene.grid, rfl, h.scene.random, h.scene.live,
    hK.wakeAll (hK.stamps h.scene.chunks _ _)⟩

theorem step (h : Matched K v w) {b : RuleBook} (hv : v.Rested b) (hw : w.Rested b) :
    Matched K v.step w.step := by
  have htick := h.scene.tick hK hv.sound hw.sound v.book v.handlers
  refine ⟨?_, ?_, ?_, ?_, ?_⟩
  · rw [step_book, step_book, h.book]
  · rw [step_handlers, step_handlers, h.handlers]
  · simpa only [World.step] using h.seed
  · simp only [World.step, h.steps]
  · simpa only [World.step, h.book, h.handlers] using htick

theorem obey (h : Matched K v w) {b : RuleBook} (hv : v.Rested b) (hw : w.Rested b)
    {command : Command} (hplays : command.plays = true) :
    Matched K (v.obey command) (w.obey command) := by
  cases command with
  | set x y id => exact (h.set hK x y id).2
  | fillDisc cx cy radius id => exact (h.fillDisc hK cx cy radius id).2
  | clear => exact h.clear hK
  | step => exact h.step hK hv hw
  | _ => cases hplays

theorem obeyAll (h : Matched K v w) {b : RuleBook} (hv : Reached b v) (hw : Reached b w)
    {commands : List Command} (hplay : ∀ command ∈ commands, command.plays = true) :
    Matched K (commands.foldl World.obey v) (commands.foldl World.obey w) := by
  induction commands generalizing v w with
  | nil => exact h
  | cons command commands ih =>
    obtain ⟨hplays, hplay⟩ := List.forall_mem_cons.mp hplay
    exact ih (h.obey hK hv.rested hw.rested hplays) (hv.obey command) (hw.obey command) hplay

end

end Matched

end World

end Sandfall
