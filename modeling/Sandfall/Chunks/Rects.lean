import Sandfall.Chunks

/-!
Chunks to be drawn again, as few rectangles: runs along each row, and runs of the same columns on
rows that touch are joined from the top.
-/

namespace Sandfall.Chunks

structure Rect where
  cx : Nat
  cy : Nat
  cw : Nat
  ch : Nat
deriving DecidableEq

/-- The runs of marked columns of a row, given the run that is open. -/
def runsFrom (marked : Nat → Bool) (cy : Nat) (opened : Option Nat) (cx : Nat) : Nat → List Rect
  | 0 =>
    match opened with
    | some first => [⟨first, cy, cx - first, 1⟩]
    | none => []
  | columns + 1 =>
    match marked cx, opened with
    | true, some first => runsFrom marked cy (some first) (cx + 1) columns
    | true, none => runsFrom marked cy (some cx) (cx + 1) columns
    | false, some first => ⟨first, cy, cx - first, 1⟩ :: runsFrom marked cy none (cx + 1) columns
    | false, none => runsFrom marked cy none (cx + 1) columns

/-- `b` continues `a` downwards. -/
def Rect.continues (a b : Rect) : Bool := b.cx = a.cx && b.cw = a.cw && b.cy = a.cy + a.ch

/-- Joins to a rectangle what continues it downwards; the others keep their order. -/
def absorb (a : Rect) : List Rect → Rect × List Rect
  | [] => (a, [])
  | b :: rest =>
    if a.continues b then absorb { a with ch := a.ch + b.ch } rest
    else ((absorb a rest).1, b :: (absorb a rest).2)

theorem absorb_length (a : Rect) (rs : List Rect) : (absorb a rs).2.length ≤ rs.length := by
  fun_induction absorb a rs <;> simp_all <;> omega

def join : List Rect → List Rect
  | [] => []
  | a :: rest =>
    have := absorb_length a rest
    (absorb a rest).1 :: join (absorb a rest).2
termination_by rs => rs.length

def rowRuns (c : Chunks) (cy : Nat) : List Rect :=
  runsFrom (fun cx => c.isDirty (c.indexOf cx cy)) cy none 0 c.across

def dirtyRects (c : Chunks) : List Rect := join ((List.range c.down).flatMap c.rowRuns)

def flatten (rs : List Rect) : List Nat := rs.flatMap fun r => [r.cx, r.cy, r.cw, r.ch]

end Sandfall.Chunks
