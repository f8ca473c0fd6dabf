import Sandfall.Binary32.Decimal
import Sandfall.Rule.Meaning
import Sandfall.Sampler
import Sandfall.RuleBook

/-!
What can be wrong with a rule, and the first fault of a rule: its outcomes' number, its matchers,
its chance, its effects and last its sampler, each in the order written.
-/

namespace Sandfall

inductive Fault where
  | tooManyOutcomes (outcomes : Nat)
  | outcomeOutOfRange (matcher outcome outcomes : Nat)
  | undefinedProperty (p : Property)
  | chanceOutOfRange (p : Binary32)
  | unknownMaterial (id : MaterialId)
  | immobileMover
  | emptySampler
  | tooManyOffsets (count : Nat)
  | offsetOutOfRange (dx dy : Int)
deriving DecidableEq

/-- The fault of one rule of one material. -/
structure CompileError where
  material : String
  rule : Nat
  fault : Fault
deriving DecidableEq

def CompileError.message (e : CompileError) : String :=
  let place := s!"material {e.material} rule {e.rule}"
  match e.fault with
  | .tooManyOutcomes n => s!"{place}: {n} outcomes exceed the limit of {maxOutcomes}"
  | .outcomeOutOfRange m o n =>
    s!"{place}: matcher {m} points at outcome {o}, but only {n} outcomes exist"
  | .undefinedProperty p => s!"{place}: property {p.title} is not defined on this material"
  | .chanceOutOfRange p => s!"{place}: chance {p.plain} is outside [0, 1]"
  | .unknownMaterial id => s!"{place}: outcome references unknown material id {id}"
  | .immobileMover => s!"material {e.material} is immobile but rule {e.rule} would move it"
  | .emptySampler => s!"{place}: sampler yields no offsets"
  | .tooManyOffsets n => s!"{place}: too many offsets ({n})"
  | .offsetOutOfRange dx dy => s!"{place}: offset ({dx}, {dy}) does not fit in a byte"

namespace Fault

def ofChance? (p : Binary32) : Option Fault :=
  if p.isProbability then none else some (.chanceOutOfRange p)

def ofPredicate? (actor : Archetype) (p : Predicate) : Option Fault :=
  (p.missing? actor).map .undefinedProperty

def ofMatcher? (actor : Archetype) (outcomes : Nat) (m : Matcher) (place : Nat) : Option Fault :=
  if outcomes ≤ m.outcome.toNat then some (.outcomeOutOfRange place m.outcome.toNat outcomes)
  else ofPredicate? actor m.when

def ofRuleChance? (actor : Archetype) : Chance → Option Fault
  | .literal p => ofChance? p
  | .property p =>
    match actor.property p with
    | none => some (.undefinedProperty p)
    | some x => ofChance? x

def ofTarget? (c : Catalog) : Option MaterialId → Option Fault
  | none => none
  | some id => if c.isKnown id then none else some (.unknownMaterial id)

def ofMover? (actor : Archetype) : Option Fault :=
  if actor.immobile then some .immobileMover else none

def ofEffect? (c : Catalog) (actor : Archetype) : Effect → Option Fault
  | .noop => none
  | .stop => none
  | .transform this other p q =>
    (ofTarget? c this).or <| (ofTarget? c other).or <| (ofChance? p).or (ofChance? q)
  | .swap p => (ofMover? actor).or (ofChance? p)
  | .densitySwap =>
    (ofMover? actor).or
      (if (actor.property .density).isNone then some (.undefinedProperty .density) else none)
  | .directionSwap reach destination =>
    if reach = 0 then none
    else (if 0 < reach then ofMover? actor else none).or (destination.bind (ofPredicate? actor))

/-- Both steps fit a signed byte. -/
def fitsByte (o : Int × Int) : Bool :=
  -128 ≤ o.1 && o.1 ≤ 127 && -128 ≤ o.2 && o.2 ≤ 127

def ofSampler? (s : Sampler) (samples : UInt8) : Option Fault :=
  let e := s.expand
  let count := e.count
  if count = 0 ∨ e.hasEmptyGroup ∨ (e.starts.isNone ∧ samples = 0) then some .emptySampler
  else if maxOffsets < count then some (.tooManyOffsets count)
  else ((e.cells.map Prod.fst).find? fun o => !fitsByte o).map fun o =>
    .offsetOutOfRange o.1 o.2

def ofRule? (c : Catalog) (actor : Archetype) (r : Rule) : Option Fault :=
  let n := r.outcomes.length
  (if maxOutcomes < n then some (.tooManyOutcomes n) else none).or <|
  (r.matchers.zipIdx.findSome? fun (m, i) => ofMatcher? actor n m i).or <|
  (ofRuleChance? actor r.chance).or <|
  (r.outcomes.findSome? (ofEffect? c actor)).or <|
  ofSampler? r.sampler r.samples

end Fault

end Sandfall
