import Sandfall.RuleBook.Fault

/-!
Turning a catalog into a rule book. A rule without a fault becomes its tables; the first fault in
the order of ids and rules stops the whole compilation.
-/

namespace Sandfall

/-- What may stand at a landing cell: something mobile inside the grid that the rule asks for. -/
def landingSet (c : Catalog) (actor : Archetype) (destination : Option Predicate) : IdSet :=
  IdSet.ofPred fun id =>
    id ≠ MaterialId.outside && !c.isImmobile id
      && destination.all fun p => p.holds c actor id

def Effect.compile (c : Catalog) (actor : Archetype) : Effect → Outcome
  | .noop => .noop
  | .stop => .stop
  | .transform this other p q => .transform this other p q
  | .swap p => .swap p
  | .densitySwap => .densitySwap
  | .directionSwap reach destination =>
    if reach = 0 then .noop
    else .directionSwap reach (landingSet c actor destination)

namespace Rule

/-- The first matcher that takes the material; one that would move it passes over what is
immobile. -/
def slotFor (c : Catalog) (actor : Archetype) (outcomes : Array Outcome) (ms : List Matcher)
    (id : MaterialId) : UInt8 :=
  if id = MaterialId.outside then noMatch
  else
    let taken := ms.find? fun m =>
      !((outcomes.getD m.outcome.toNat .noop).movesCandidate && c.isImmobile id)
        && m.when.holds c actor id
    (taken.map fun m => m.outcome.toUInt8).getD noMatch

/-- The tables of a rule without a fault. -/
def tables (c : Catalog) (actor : Archetype) (r : Rule) : CompiledRule :=
  let e := r.sampler.expand
  let outcomes := (r.outcomes.map (·.compile c actor)).toArray
  { chance := (r.chance.value actor).getD .zero
    offsets := (e.offsets.map fun o => (Int8.ofInt o.1, Int8.ofInt o.2)).toArray
    count := UInt16.ofNat e.count
    samples := r.samples.toNat
    starts := e.starts.map fun starts => (starts.map UInt16.ofNat).toArray
    slots := Vector.ofFn fun i => slotFor c actor outcomes r.matchers (UInt8.ofNat i.val)
    outcomes
    limit := (r.limit.map UInt32.toNat).getD 0
    commit := r.commit
    stamp := r.stamp }

def compile (c : Catalog) (actor : Archetype) (r : Rule) : Except Fault CompiledRule :=
  match Fault.ofRule? c actor r with
  | some f => .error f
  | none => .ok (r.tables c actor)

end Rule

namespace Archetype

/-- The compiled rules of a material, each with the passes it is tried in. -/
def compile (c : Catalog) (actor : Archetype) :
    Except CompileError (List (PassRestriction × CompiledRule)) :=
  actor.rules.zipIdx.mapM fun (r, i) =>
    match r.compile c actor with
    | .ok t => .ok (r.pass, t)
    | .error f => .error ⟨actor.name, i, f⟩

end Archetype

namespace RuleBook

def compileAll (c : Catalog) :
    Except CompileError (List (MaterialId × List (PassRestriction × CompiledRule))) :=
  c.entries.mapM fun (id, a) =>
    match a.compile c with
    | .ok rs => .ok (id, rs)
    | .error e => .error e

def passTable (compiled : List (MaterialId × List (PassRestriction × CompiledRule))) (pass : Pass) :
    Vector (List CompiledRule) 256 :=
  Vector.ofFn fun i =>
    match compiled.lookup (UInt8.ofNat i.val) with
    | none => []
    | some rs => (rs.filter fun r => r.1.admits pass).map Prod.snd

def compile (c : Catalog) : Except CompileError RuleBook := do
  let compiled ← compileAll c
  return {
    catalog := c
    rising := passTable compiled .rising
    falling := passTable compiled .falling
    known := IdSet.ofPred c.isKnown
    special := IdSet.ofPred fun id => (c.get id).any Archetype.isSpecial
    immobile := IdSet.ofPred c.isImmobile
    densities := Vector.ofFn fun i =>
      (c.property (UInt8.ofNat i.val) .density).getD .zero }

end RuleBook

end Sandfall
