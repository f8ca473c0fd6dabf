import Sandfall.Chunks
import Sandfall.Grid

/-!
Once a tick the active chunks are compared with their last checksums. A changed chunk wakes its
neighbours, a quiet one counts towards sleep, and one that holds a material which must stay awake
starts its count anew instead of falling asleep.
-/

namespace Sandfall.Chunks

/-- The cells of a chunk, row by row. -/
def cellsOf (c : Chunks) (i : Nat) : List Nat :=
  let (cx, cy) := c.coords i
  let b := c.bounds cx cy
  (List.range' b.top (b.bottom - b.top)).flatMap fun y =>
    List.range' (y * c.width + b.left) (b.right - b.left)

def checksum (c : Chunks) (g : Grid) (i : Nat) : UInt32 :=
  (c.cellsOf i).foldl (fun h k => Checksum.mix h (g.cell k)) Checksum.start

def neighbours (c : Chunks) (i : Nat) : List Nat :=
  let (cx, cy) := c.coords i
  let around : List (Int × Int) :=
    [(-1, -1), (0, -1), (1, -1), (-1, 0), (1, 0), (-1, 1), (0, 1), (1, 1)]
  around.filterMap fun (dx, dy) =>
    if c.inBounds (cx + dx) (cy + dy) then
      some (c.indexOf (cx + dx).toNat (cy + dy).toNat)
    else none

/-- The contents of the chunk differ from those last seen. -/
def noteChange (c : Chunks) (i : Nat) (sum : UInt32) : Chunks :=
  let c := { c with
    checksums := c.checksums.setIfInBounds i sum
    sleep := c.sleep.setIfInBounds i 0
    dirty := c.dirty.setIfInBounds i true }
  (c.neighbours i).foldl wake c

/-- The contents of the chunk are those last seen. -/
def noteQuiet (c : Chunks) (keepsAwake : Nat → Bool) (i : Nat) : Chunks :=
  let ticks := tickUp (c.sleep[i]?.getD 0)
  let c := { c with sleep := c.sleep.setIfInBounds i ticks }
  if !c.sleepingEnabled || ticks < sleepThreshold then c
  else if (c.cellsOf i).any keepsAwake then { c with sleep := c.sleep.setIfInBounds i 0 }
  else { c with active := c.active.setIfInBounds i false, slept := countUp c.slept }

def reconcile (c : Chunks) (keepsAwake : Nat → Bool) (i : Nat) (sum : UInt32) : Chunks :=
  if sum ≠ c.checksums[i]?.getD 0 then c.noteChange i sum else c.noteQuiet keepsAwake i

/-- The chunks active now, with the checksums of their present contents. -/
def activeSums (c : Chunks) (g : Grid) : List (Nat × UInt32) :=
  ((List.range c.count).filter c.isActive).map fun i => (i, c.checksum g i)

def updateActivity (c : Chunks) (g : Grid) (keepsAwake : MaterialId → Bool) : Chunks :=
  (c.activeSums g).foldl (fun c (i, sum) => c.reconcile (fun k => keepsAwake (g.cell k)) i sum) c

end Sandfall.Chunks
