import Sandfall.Chunks.Stamps

/-!
The grid's 32 by 32 chunks. A chunk is scanned while it is active; one that stays the same for
sixty ticks falls asleep, and any write into it wakes it. Each chunk also has a mark for being drawn
again, and the cells moved in the current pass have stamps.
-/

namespace Sandfall

namespace Chunks

/-- Edge of a chunk in cells. -/
def edge : Nat := 32

/-- Unchanged ticks before an active chunk sleeps. -/
def sleepThreshold : UInt8 := 60

/-- Chunks along a side of so many cells; the last may be cut. -/
def along (cells : Nat) : Nat := (cells + edge - 1) / edge

def total (width height : Nat) : Nat := along width * along height

/-- One more, unless the word is full. -/
def countUp (n : UInt32) : UInt32 := if n = 0xffffffff then n else n + 1

/-- One more tick, unless the byte is full. -/
def tickUp (n : UInt8) : UInt8 := if n = 255 then n else n + 1

/-- Redraw marks come in words of 64. -/
def markSlots (chunks : Nat) : Nat := (chunks + 63) / 64 * 64

end Chunks

structure Chunks where
  width : Nat
  height : Nat
  active : Vector Bool (Chunks.total width height)
  /-- Ticks without a change, up to 255. -/
  sleep : Vector UInt8 (Chunks.total width height)
  checksums : Vector UInt32 (Chunks.total width height)
  dirty : Vector Bool (Chunks.markSlots (Chunks.total width height))
  stamps : Stamps (width * height)
  sleepingEnabled : Bool
  /-- Chunks woken and put to sleep in this tick. -/
  woke : UInt32
  slept : UInt32

namespace Chunks

def fresh (width height : Nat) (sleepingEnabled : Bool) : Chunks where
  width
  height
  active := Vector.replicate _ true
  sleep := Vector.replicate _ 0
  checksums := Vector.replicate _ 0
  dirty := Vector.replicate _ true
  stamps := .fresh _
  sleepingEnabled
  woke := 0
  slept := 0

def ofSize (width height : Nat) : Chunks := fresh width height true

instance : Inhabited Chunks := ⟨ofSize 0 0⟩

def resize (c : Chunks) (width height : Nat) : Chunks := fresh width height c.sleepingEnabled

def across (c : Chunks) : Nat := along c.width

def down (c : Chunks) : Nat := along c.height

def count (c : Chunks) : Nat := total c.width c.height

def indexOf (c : Chunks) (cx cy : Nat) : Nat := cy * c.across + cx

def ofCell (c : Chunks) (x y : Nat) : Nat := c.indexOf (x / edge) (y / edge)

def coords (c : Chunks) (i : Nat) : Nat × Nat := (i % c.across, i / c.across)

def inBounds (c : Chunks) (cx cy : Int) : Bool :=
  0 ≤ cx && cx < c.across && 0 ≤ cy && cy < c.down

/-- First column and row of a chunk, and the ends of both. -/
structure Bounds where
  left : Nat
  top : Nat
  right : Nat
  bottom : Nat
deriving DecidableEq

/-- Where the `k`-th chunk along a side of so many cells begins and ends. Both are words and wrap. -/
def reach (cells k : Nat) : Nat × Nat :=
  let first := k * edge % UInt32.size
  (first, min ((first + edge) % UInt32.size) cells)

def bounds (c : Chunks) (cx cy : Nat) : Bounds where
  left := (reach c.width cx).1
  top := (reach c.height cy).1
  right := (reach c.width cx).2
  bottom := (reach c.height cy).2

def isActive (c : Chunks) (i : Nat) : Bool := c.active[i]?.getD false

def activeCount (c : Chunks) : Nat := c.active.foldl (fun n a => if a then n + 1 else n) 0

def isDirty (c : Chunks) (i : Nat) : Bool := c.dirty[i]?.getD false

def dirtyCount (c : Chunks) : Nat := ((List.range c.count).filter c.isDirty).length

/-- Sets the mark of a chunk, or a spare one behind the last chunk. -/
def setMark (c : Chunks) (i : Nat) : Chunks := { c with dirty := c.dirty.setIfInBounds i true }

def markDirty (c : Chunks) (i : Nat) : Chunks := if i < c.count then c.setMark i else c

def markAllDirty (c : Chunks) : Chunks := { c with dirty := Vector.replicate _ true }

def clearDirty (c : Chunks) : Chunks := { c with dirty := Vector.replicate _ false }

def wake (c : Chunks) (i : Nat) : Chunks :=
  if i < c.count then
    if c.isActive i then { c with sleep := c.sleep.setIfInBounds i 0 }
    else
      { c with
        sleep := c.sleep.setIfInBounds i 0
        active := c.active.setIfInBounds i true
        woke := countUp c.woke }
  else c

/-- A chunk was written to: it wakes and is drawn again. -/
def touch (c : Chunks) (i : Nat) : Chunks := (c.wake i).setMark i

def touchCell (c : Chunks) (x y : Nat) : Chunks := c.touch (c.ofCell x y)

def wakeAll (c : Chunks) : Chunks := ((List.range c.count).foldl wake c).markAllDirty

/-- The nearest number to `n` from `low` up to `high`. -/
def clamp (n low high : Int32) : Int32 := max low (min n high)

/-- The disc meets the chunk: its nearest point to the centre is no further away than the radius,
which words of 64 bits decide. -/
def meetsDisc (c : Chunks) (cx cy radius : Int32) (kx ky : Nat) : Bool :=
  let b := c.bounds kx ky
  let dx := (clamp cx (Int32.ofNat b.left) (Int32.ofNat b.right - 1)).toInt64 - cx.toInt64
  let dy := (clamp cy (Int32.ofNat b.top) (Int32.ofNat b.bottom - 1)).toInt64 - cy.toInt64
  dx * dx + dy * dy ≤ radius.toInt64 * radius.toInt64

def span (low high : Int32) : List Nat :=
  List.range' (low.toNatClampNeg / edge) (high.toNatClampNeg / edge + 1 - low.toNatClampNeg / edge)

/-- Touches every chunk that the disc meets. The ends of its box are words and wrap. -/
def wakeDisc (c : Chunks) (cx cy radius : Int32) : Chunks :=
  let r := max radius 0
  let left := max (cx - r) 0
  let top := max (cy - r) 0
  let right := min (cx + r) (Int32.ofNat c.width - 1)
  let bottom := min (cy + r) (Int32.ofNat c.height - 1)
  if right < left ∨ bottom < top then c
  else
    (span top bottom).foldl (fun c ky =>
      (span left right).foldl (fun c kx =>
        if c.meetsDisc cx cy r kx ky then c.touch (c.indexOf kx ky) else c) c) c

def setSleepingEnabled (c : Chunks) (enabled : Bool) : Chunks :=
  let c := { c with sleepingEnabled := enabled }
  if enabled then c else c.wakeAll

def beginTick (c : Chunks) : Chunks := { c with woke := 0, slept := 0 }

/-- Every active chunk will count as changed. -/
def resetChecksums (c : Chunks) : Chunks := { c with checksums := Vector.replicate _ 0 }

def isStamped (c : Chunks) (i : Nat) : Bool := c.stamps.isStamped i

def stamp (c : Chunks) (i : Nat) : Chunks := { c with stamps := c.stamps.stamp i }

def beginPass (c : Chunks) : Chunks := { c with stamps := c.stamps.beginPass }

def clearStamps (c : Chunks) : Chunks := { c with stamps := c.stamps.clear }

end Chunks

end Sandfall
