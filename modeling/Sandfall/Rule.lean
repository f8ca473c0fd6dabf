import Sandfall.Material

/-!
Rules as authors write them. A rule looks at cells around the acting one, sorts each candidate by
the first matcher whose predicate holds for the material found there, and applies that matcher's
effect. Predicates speak of materials only, never of places.
-/

namespace Sandfall

/-- A step right and down. -/
abbrev Offset := Int8 × Int8

inductive Chance where
  | literal (p : Binary32)
  | property (p : Property)
deriving DecidableEq

/-- Which neighbours a rule considers. -/
inductive Sampler where
  /-- The acting cell itself. -/
  | own
  | offsets (offsets : List Offset)
  /-- The square around the cell, its upper cells `1 + upBias` times. -/
  | radius (radius upBias : UInt8)
  /-- Distances above `inner` and up to `outer`. -/
  | annulus (inner outer : UInt8)
  | rect (left right up down : UInt8)
  /-- One group is drawn and walked in order. -/
  | ordered (groups : List (List Offset))
deriving DecidableEq

inductive Comparison where
  | lt
  | le
  | gt
  | ge
  | eq
  | ne
deriving DecidableEq

def Comparison.holds (c : Comparison) (x y : Binary32) : Bool :=
  match c with
  | .lt => x.lt y
  | .le => x.le y
  | .gt => y.lt x
  | .ge => y.le x
  | .eq => x.same y
  | .ne => !x.same y

inductive Operand where
  | literal (x : Binary32)
  /-- The acting material's own coefficient. -/
  | own (p : Property)
deriving DecidableEq

/-- A condition on the candidate's material. -/
inductive Predicate where
  | always
  | ids (ids : List MaterialId)
  | anyTag (tags : List Tag)
  | allTags (tags : List Tag)
  | compare (property : Property) (op : Comparison) (rhs : Operand)
  | not (p : Predicate)
  | all (ps : List Predicate)
  | any (ps : List Predicate)
deriving Inhabited

/-- The first matcher that holds picks the effect with this number. -/
structure Matcher where
  when : Predicate
  outcome : UInt64

inductive Effect where
  /-- Rewrites the candidate, then the acting cell, each behind its own chance. -/
  | transform (this other : Option MaterialId) (thisChance otherChance : Binary32)
  | swap (chance : Binary32)
  /-- The denser, the likelier the exchange. -/
  | densitySwap
  /-- A positive reach throws the acting cell along the direction of the candidate, a negative one
  pulls the candidate towards it. -/
  | directionSwap (reach : Int8) (destination : Option Predicate)
  | stop
  | noop

/-- When writes land. -/
inductive Commit where
  | immediate
  | endOfPass
  | endOfTick
deriving DecidableEq

inductive PassRestriction where
  | rising
  | falling
  | either
deriving DecidableEq

structure Rule where
  chance : Chance := .literal .one
  sampler : Sampler
  /-- Draws per attempt, unless the sampler is ordered. -/
  samples : UInt8 := 1
  matchers : List Matcher := []
  outcomes : List Effect := []
  /-- Candidates rewritten before the walk ends. -/
  limit : Option UInt32 := none
  commit : Commit := .immediate
  pass : PassRestriction := .either
  stamp : Bool := false

end Sandfall
