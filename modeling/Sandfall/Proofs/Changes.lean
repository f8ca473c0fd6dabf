import Sandfall.Proofs.Brush

/-! What a command does to the cells and chunks of a world at rest. It paints some cells, or it
renews the chunks as a whole, or it lets them sleep, or it collects their marks, or it is a step.
Only a disc whose numbers do not fit into words may paint a cell and leave its chunk alone. -/

namespace Sandfall

theorem Scene.Lasts.paint {P : Grid → Chunks → Prop} (hP : Scene.Lasts P) {s : Scene}
    (hs : s.Sound) {cells : List (Nat × MaterialId)} (hcells : ∀ c ∈ cells, c.1 < s.grid.size)
    (h : P s.grid s.chunks) : P (World.paint s cells).grid (World.paint s cells).chunks := by
  induction cells generalizing s with
  | nil => exact h
  | cons c cells ih =>
    obtain ⟨hc, hcells⟩ := List.forall_mem_cons.mp hcells
    rw [World.paint_cons]
    exact ih (hs.put c.1 c.2) hcells (hP.put hs hc c.2 h)

/-- If the command paints a disc, the numbers of the disc fit into words. -/
def Command.Fits (b : RuleBook) : Command → Prop
  | .fillDisc cx cy radius id => 0 ≤ radius → b.isKnown id = true → DiscFits cx cy radius
  | _ => True

namespace World

/-- How a command may change a scene. -/
inductive Change (b : RuleBook) (hs : Handlers) (s t : Scene) : Command → Prop
  | paint {command : Command} (cells : List (Nat × MaterialId)) :
    (∀ c ∈ cells, c.1 < s.grid.size) → t.grid = (World.paint s cells).grid →
      t.chunks = (World.paint s cells).chunks → Change b hs s t command
  | renew {command : Command} (c : Chunks) : t.chunks = c.wakeAll → Change b hs s t command
  | allow : t.grid = s.grid → t.chunks = { s.chunks with sleepingEnabled := true } →
      Change b hs s t (.setSleeping true)
  | collect : t.grid = s.grid → t.chunks = s.chunks.clearDirty → Change b hs s t .collectDirty
  | step : t = tick b hs s → Change b hs s t .step

variable {b : RuleBook} {hs : Handlers} {s t : Scene} {w : World}

theorem Change.same {command : Command} (hgrid : t.grid = s.grid) (hchunks : t.chunks = s.chunks) :
    Change b hs s t command :=
  .paint [] (by simp) hgrid hchunks

theorem Rested.change (h : w.Rested b) {command : Command} (hfits : command.Fits b) :
    Change b w.handlers w.scene (w.obey command).scene command := by
  obtain ⟨rfl, hsound, -⟩ := h
  cases command with
  | set x y id =>
    simp only [World.obey, World.set, Scene.place]
    split_ifs with hin
    · rw [Bool.and_eq_true] at hin
      have hi := Grid.index_lt_of_inBounds hin.1
      exact .paint [(w.scene.grid.index x.toNat y.toNat, id)] (by simpa using hi) rfl rfl
    · exact .same rfl rfl
  | fillDisc cx cy radius id =>
    by_cases hno : (radius < 0 || !w.book.isKnown id) = true
    · rw [World.obey, World.fillDisc, if_pos hno]
      exact .same rfl rfl
    · simp only [Bool.or_eq_true, not_or, decide_eq_true_iff, Int32.not_lt, Bool.not_eq_true,
        Bool.not_eq_false'] at hno
      rw [World.obey, fillDisc_eq_paint hsound hno.1 (hfits hno.1 hno.2) hno.2]
      refine .paint _ (fun c hc => ?_) rfl rfl
      obtain ⟨⟨x, y⟩, hp, rfl⟩ := List.mem_map.mp hc
      obtain ⟨⟨hx, hy⟩, -⟩ := mem_discCells.mp hp
      exact Grid.index_lt hx hy
  | clear => exact .renew _ rfl
  | step => exact .step rfl
  | load bytes =>
    simp only [World.obey, afterLoad_eq]
    cases hload : w.load bytes with
    | error e => exact .same rfl rfl
    | ok w' =>
      obtain ⟨s, -, -, rfl⟩ := load_eq_ok hload
      exact .renew _ rfl
  | reset seed => exact .renew _ rfl
  | setSleeping enabled =>
    cases enabled with
    | true => exact .allow rfl rfl
    | false => exact .renew _ rfl
  | enablePerf enabled => exact .same rfl rfl
  | enableTrace enabled => exact .same rfl rfl
  | bind key h => exact .same rfl rfl
  | collectDirty => exact .collect rfl rfl

def obeyAll (w : World) (commands : List Command) : World := commands.foldl obey w

theorem obeyAll_concat (w : World) (commands : List Command) (command : Command) :
    w.obeyAll (commands ++ [command]) = (w.obeyAll commands).obey command := by
  rw [obeyAll, List.foldl_append]
  rfl

theorem obeyAll_cons (w : World) (command : Command) (commands : List Command) :
    w.obeyAll (command :: commands) = (w.obey command).obeyAll commands := rfl

theorem obeyAll_append (w : World) (commands more : List Command) :
    w.obeyAll (commands ++ more) = (w.obeyAll commands).obeyAll more :=
  List.foldl_append

theorem obeyAll_replicate_step (w : World) (n : Nat) :
    w.obeyAll (List.replicate n .step) = w.stepMany n := by
  induction n generalizing w with
  | zero => rfl
  | succ n ih =>
    rw [List.replicate_succ, obeyAll_cons, ih]
    rfl

theorem Rested.obeyAll (h : w.Rested b) (commands : List Command) :
    (w.obeyAll commands).Rested b := by
  induction commands using List.reverseRecOn with
  | nil => exact h
  | append_singleton commands command ih =>
    rw [obeyAll_concat]
    exact ih.obey command

/-- The commands that paint cells into a grid of the given width, one by one. -/
def strokes (width : Nat) (cells : List (Nat × MaterialId)) : List Command :=
  cells.map fun c => .set (c.1 % width : Nat) (c.1 / width : Nat) c.2

theorem obeyAll_strokes {cells : List (Nat × MaterialId)}
    (hcells : ∀ c ∈ cells, c.1 < w.scene.grid.size ∧ w.book.isKnown c.2 = true) :
    w.obeyAll (strokes w.width cells) = { w with scene := World.paint w.scene cells } := by
  induction cells generalizing w with
  | nil => rfl
  | cons c cells ih =>
    obtain ⟨⟨hi, hknown⟩, hcells⟩ := List.forall_mem_cons.mp hcells
    rw [strokes, List.map_cons, obeyAll_cons, obey_set hi hknown]
    exact ih hcells

end World

end Sandfall
