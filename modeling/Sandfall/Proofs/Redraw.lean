import Sandfall.Proofs.Changes
import Sandfall.Proofs.Reckon
import Sandfall.Proofs.Rects

/-! Redrawing. A host keeps a copy of the grid, and whenever it collects the rectangles of marked
chunks it copies the cells of these and of no others. Every write marks the chunk of its cell, and
what changes the grid as a whole marks all, so a cell whose chunk is not marked is in the copy as it
is in the grid, and right after it has collected, the host has the whole grid. A disc whose numbers
do not fit into words breaks this. -/

namespace Sandfall

/-! Copying. -/

namespace Grid

/-- Copies some cells from a grid of the same sides. -/
def copyFrom (copy source : Grid) (ks : List Nat) : Grid :=
  ks.foldl (fun g k => g.set k (source.cell k)) copy

end Grid

namespace Chunks

/-- The cells of the chunks of a rectangle, in a grid of the given sides. -/
def Rect.cells (r : Rect) (width height : Nat) : List Nat :=
  (List.range' (r.cy * edge) (min ((r.cy + r.ch) * edge) height - r.cy * edge)).flatMap fun y =>
    List.range' (y * width + r.cx * edge) (min ((r.cx + r.cw) * edge) width - r.cx * edge)

theorem Rect.mem_cells {r : Rect} {g : Grid} {k : Nat} : k ∈ r.cells g.width g.height ↔
    ∃ x y, x < g.width ∧ y < g.height ∧ g.index x y = k ∧ r.Holds (x / edge) (y / edge) := by
  simp only [cells, List.mem_flatMap, List.mem_range'_1, Grid.index, Holds, edge]
  constructor
  · rintro ⟨y, hrow, hcolumn⟩
    exact ⟨k - y * g.width, y, by omega⟩
  · rintro ⟨x, y, hx, hy, rfl, hin⟩
    exact ⟨y, by omega, by omega⟩

/-! Marks. -/

variable {c d : Chunks} {g : Grid} {i : Nat}

theorem count_le_markSlots (c : Chunks) : c.count ≤ markSlots c.count := by
  simp only [markSlots]
  omega

theorem isDirty_setMark (c : Chunks) (i j : Nat) :
    (c.setMark i).isDirty j = (decide (i = j ∧ i < markSlots c.count) || c.isDirty j) := by
  have hset : (c.setMark i).isDirty j = if i = j ∧ i < markSlots c.count then true
      else c.isDirty j := getD_setIfInBounds c.dirty i j true false
  rw [hset]
  split_ifs with h
  · rw [decide_eq_true h, Bool.true_or]
  · rw [decide_eq_false h, Bool.false_or]

theorem isDirty_wake (c : Chunks) (i j : Nat) : (c.wake i).isDirty j = c.isDirty j := by
  obtain ⟨_, hwake⟩ := c.wake_eq i
  rw [hwake]
  rfl

theorem isDirty_touch (c : Chunks) (i j : Nat) :
    (c.touch i).isDirty j = (decide (i = j ∧ i < markSlots c.count) || c.isDirty j) := by
  rw [touch, isDirty_setMark, isDirty_wake, (sameStamps_wake c i).count]

/-- No mark is lost. -/
def Marked (c d : Chunks) : Prop := ∀ i, c.isDirty i = true → d.isDirty i = true

theorem Marked.foldl {α : Type} {f : Chunks → α → Chunks} (hf : ∀ c x, Marked c (f c x))
    (xs : List α) (c : Chunks) : Marked c (xs.foldl f c) := by
  induction xs generalizing c with
  | nil => exact fun _ hi => hi
  | cons x xs ih => exact fun i hi => ih (f c x) i (hf c x i hi)

/-- The copy has every cell of the grid whose chunk is not marked. -/
def Current (copy g : Grid) (c : Chunks) : Prop :=
  ∀ x y, x < g.width → y < g.height → c.isDirty (c.ofCell x y) = false →
    copy.width = g.width ∧ copy.height = g.height ∧ copy.cell (g.index x y) = g.cell (g.index x y)

end Chunks

/-! The host. -/

/-- A host has a world and a copy of its grid. -/
structure Host where
  world : World
  copy : Grid

namespace Host

variable (blank : (width height : Nat) → Vector MaterialId (width * height)) {b : RuleBook}

/-- The copy, or a new one if the sides of the grid have changed; what that holds is left open. -/
def fit (copy source : Grid) : Grid :=
  if copy.width = source.width ∧ copy.height = source.height then copy
  else ⟨source.width, source.height, blank source.width source.height⟩

/-- The copy with the cells of some rectangles copied into it. -/
def refresh (copy source : Grid) (rects : List Chunks.Rect) : Grid :=
  (fit blank copy source).copyFrom source
    (rects.flatMap fun r => r.cells source.width source.height)

/-- A host passes a command on, and copies the cells of the rectangles it has collected. -/
def obey (h : Host) (command : Command) : Host where
  world := h.world.obey command
  copy :=
    match command with
    | .collectDirty =>
      refresh blank h.copy h.world.collectDirty.2.scene.grid h.world.collectDirty.1
    | _ => h.copy

def obeyAll (h : Host) (commands : List Command) : Host := commands.foldl (obey blank) h

theorem obeyAll_concat (h : Host) (commands : List Command) (command : Command) :
    h.obeyAll blank (commands ++ [command]) = (h.obeyAll blank commands).obey blank command := by
  rw [obeyAll, List.foldl_append]
  rfl

end Host

end Sandfall
