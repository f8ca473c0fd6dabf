import Sandfall.Firing
import Sandfall.Catalog.Builtin
import Sandfall.RuleBook.Compile

/-!
The turn of a cell by the rules as they were authored, without tables. Matchers are tried on each
candidate, predicates are asked of the catalog, and offsets come from the sampler.
-/

namespace Sandfall

/-- A catalog got by inserting materials into the empty or the built-in one. -/
inductive Catalog.Reached : Catalog → Prop
  | empty : Reached .empty
  | builtin : Reached .builtin
  | insert {c d : Catalog} {id : MaterialId} {a : Archetype} :
    Reached c → c.insert id a = .ok d → Reached d

namespace Authored

/-- The effect would take the candidate out of its cell. -/
def relocates : Effect → Bool
  | .swap _ => true
  | .densitySwap => true
  | .directionSwap reach _ => reach < 0
  | _ => false

def odds (actor : Archetype) : Chance → Binary32
  | .literal p => p
  | .property p => (actor.property p).getD .zero

/-- The effect on a candidate: that of the first matcher that holds. A matcher that would take an
immobile candidate away is passed over. -/
def effectOn? (c : Catalog) (actor : Archetype) (r : Rule) (id : MaterialId) : Option Effect :=
  r.matchers.findSome? fun m =>
    r.outcomes[m.outcome.toNat]?.filter fun e =>
      !(relocates e && c.isImmobile id) && m.when.holds c actor id

/-- A material that may be displaced at a landing cell. -/
def welcomes (c : Catalog) (actor : Archetype) (destination : Option Predicate) (id : MaterialId) :
    Bool :=
  !c.isImmobile id && destination.all fun p => p.holds c actor id

/-- Exchanges two cells; a claimed move stamps where it goes, one put off where it comes from too. -/
def relocate (r : Rule) (source target : Nat) (s : Scene) : Scene :=
  let late := r.commit ≠ .immediate
  let s := s.exchange r.commit source target
  let s := if r.stamp ∨ late then s.stamp target else s
  let s := if late then s.stamp source else s
  s.record source target

def enough (r : Rule) (hits : Nat) : Flow :=
  match r.limit with
  | none => .next
  | some limit => if limit ≠ 0 ∧ limit.toNat ≤ hits then .nextRule else .next

/-- Rewrites the candidate and then, unless the candidate was the acting cell itself, the acting
cell. A cell that already is what it should become stays. -/
def transform (r : Rule) (a : Actor) (k : Candidate) (this other : Option MaterialId)
    (p q : Binary32) (hits : Nat) (s : Scene) : Flow × Nat × Scene :=
  let own (hits : Nat) (s : Scene) : Flow × Nat × Scene :=
    match this with
    | none => (enough r hits, hits, s)
    | some this =>
      let (passed, s) := s.chance p
      if passed ∧ this ≠ a.id then (.changed, hits, s.write r.commit a.index this)
      else (enough r hits, hits, s)
  match other with
  | none => own hits s
  | some other =>
    let (passed, s) := s.chance q
    if passed ∧ other ≠ k.id then
      let s := s.write r.commit k.index other
      if k.index = a.index then (.changed, hits, s) else own (hits + 1) s
    else own hits s

def densityOf (c : Catalog) (id : MaterialId) : Binary32 := (c.property id .density).getD .zero

/-- Where a rule's direction swap brings which cell, if it may. -/
def landing? (c : Catalog) (actor : Archetype) (a : Actor) (k : Candidate) (reach : Int8)
    (destination : Option Predicate) (s : Scene) : Option (Nat × Nat) :=
  let sx := k.dx.sign
  let sy := k.dy.sign
  let fromActor := 0 < reach.toInt
  let x := if fromActor then a.x + sx * reach.toInt else k.x + sx * reach.toInt
  let y := if fromActor then a.y + sy * reach.toInt else k.y + sy * reach.toInt
  if reach = 0 ∨ (sx = 0 ∧ sy = 0) ∨ !s.grid.inBounds x y then none
  else
    let t := s.grid.index x.toNat y.toNat
    let open? := welcomes c actor destination (s.grid.cell t) ∧ s.isStamped t = false
    if fromActor then if open? then some (a.index, t) else none
    else if open? ∧ s.isStamped k.index = false ∧ t ≠ a.index ∧ t ≠ k.index then some (k.index, t)
    else none

def act (c : Catalog) (actor : Archetype) (r : Rule) (a : Actor) (k : Candidate) (e : Effect)
    (hits : Nat) (s : Scene) : Flow × Nat × Scene :=
  match e with
  | .noop => (.next, hits, s)
  | .stop => (.halt, hits, s)
  | .transform this other p q => transform r a k this other p q hits s
  | .swap p =>
    if k.index = a.index ∨ s.isStamped k.index then (.next, hits, s)
    else
      let (passed, s) := s.chance p
      if passed then (.changed, hits, relocate r a.index k.index s) else (.next, hits, s)
  | .densitySwap =>
    let p := ((densityOf c a.id).sub (densityOf c k.id)).double
    if s.isStamped k.index ∨ p.le .zero then (.next, hits, s)
    else
      let (passed, s) := s.chance p
      if passed then (.changed, hits, relocate r a.index k.index s) else (.next, hits, s)
  | .directionSwap reach destination =>
    match landing? c actor a k reach destination s with
    | none => (.next, hits, s)
    | some (source, target) =>
      (if 0 < reach.toInt then .changed else .next, hits, relocate r source target s)

def visit (c : Catalog) (actor : Archetype) (r : Rule) (a : Actor) (offset : Int × Int)
    (hits : Nat) (s : Scene) : Flow × Nat × Scene :=
  match Firing.candidate? s.grid a offset with
  | none => (.next, hits, s)
  | some k =>
    match effectOn? c actor r k.id with
    | none => (.next, hits, s)
    | some e => act c actor r a k e hits s

def walk (c : Catalog) (actor : Archetype) (r : Rule) (a : Actor) :
    List (Int × Int) → Nat → Scene → Flow × Scene
  | [], _, s => (.nextRule, s)
  | o :: os, hits, s =>
    match visit c actor r a o hits s with
    | (.next, hits, s) => walk c actor r a os hits s
    | (flow, _, s) => (flow, s)

def sample (c : Catalog) (actor : Archetype) (r : Rule) (a : Actor) (os : List (Int × Int)) :
    Nat → Nat → Scene → Flow × Scene
  | 0, _, s => (.nextRule, s)
  | n + 1, hits, s =>
    let (k, s) := s.below os.length
    match visit c actor r a (os.getD k (0, 0)) hits s with
    | (.next, hits, s) => sample c actor r a os n hits s
    | (flow, _, s) => (flow, s)

def fire (c : Catalog) (actor : Archetype) (r : Rule) (a : Actor) (s : Scene) : Flow × Scene :=
  match r.sampler with
  | .ordered groups =>
    let (g, s) := s.below groups.length
    walk c actor r a ((groups.getD g []).map Sampler.widen) 0 s
  | sampler => sample c actor r a sampler.expand.offsets r.samples.toNat 0 s

def tryRules (c : Catalog) (actor : Archetype) (a : Actor) : List Rule → Scene → Bool × Scene
  | [], s => (false, s)
  | r :: rs, s =>
    let (passed, s) := s.countAttempted.chance (odds actor r.chance)
    if passed then
      match fire c actor r a s.countFired with
      | (.halt, s) => (false, s)
      | (.changed, s) => (true, s)
      | (_, s) => tryRules c actor a rs s
    else tryRules c actor a rs s

/-- The turn of the cell at `x`, `y` by the authored rules that the pass admits. -/
def runCell (c : Catalog) (pass : Pass) (x y : Nat) (s : Scene) : Bool × Scene :=
  let i := s.grid.index x y
  let id := s.grid.cell i
  match c.get id with
  | none => (false, s)
  | some actor =>
    match actor.rules.filter (·.pass.admits pass) with
    | [] => (false, s)
    | rules => tryRules c actor ⟨x, y, i, id⟩ rules s.countVisited

end Authored

end Sandfall
