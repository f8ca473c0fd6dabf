import Sandfall.RuleBook
import Sandfall.Scene

/-!
Firing the rules of one cell. Rules are tried in order, each behind its chance; a rule that fires
visits candidates one by one until an outcome ends the walk, the rule list or the cell's turn.
-/

namespace Sandfall

/-- How things go on after a candidate. -/
inductive Flow where
  | next
  | nextRule
  /-- The other rules are left out. -/
  | halt
  /-- The acting cell has changed or moved. -/
  | changed
deriving DecidableEq

structure Actor where
  x : Nat
  y : Nat
  index : Nat
  id : MaterialId
deriving DecidableEq

structure Candidate where
  dx : Int
  dy : Int
  x : Nat
  y : Nat
  index : Nat
  id : MaterialId
deriving DecidableEq

namespace Scene

def write (s : Scene) (commit : Commit) (i : Nat) (id : MaterialId) : Scene :=
  match commit with
  | .immediate => s.put i id
  | .endOfPass => { s with pending := s.pending.pushPass (.ofSet i id) }
  | .endOfTick => { s with pending := s.pending.pushTick (.ofSet i id) }

def exchange (s : Scene) (commit : Commit) (source target : Nat) : Scene :=
  let moving := s.grid.cell source
  let displaced := s.grid.cell target
  match commit with
  | .immediate => (s.put target moving).put source displaced
  | .endOfPass =>
    { s with pending := s.pending.pushPass (.ofExchange source target moving displaced) }
  | .endOfTick =>
    { s with pending := s.pending.pushTick (.ofExchange source target moving displaced) }

/-- Stamps the target of a move if the rule asks for it. A move put off stamps both cells, since the
grid still shows what was there before. -/
def stampMove (s : Scene) (r : CompiledRule) (source target : Nat) : Scene :=
  let deferred := r.commit ≠ .immediate
  let s := if r.stamp || deferred then s.stamp target else s
  if deferred then s.stamp source else s

/-- The particle at `source` goes to `target`, and what was there comes back. -/
def move (s : Scene) (r : CompiledRule) (source target : Nat) : Scene :=
  ((s.exchange r.commit source target).stampMove r source target).record source target

end Scene

namespace Firing

def candidate? (g : Grid) (a : Actor) (offset : Int × Int) : Option Candidate :=
  let (dx, dy) := offset
  let x := a.x + dx
  let y := a.y + dy
  if g.inBounds x y then
    let i := g.index x.toNat y.toNat
    some ⟨dx, dy, x.toNat, y.toNat, i, g.cell i⟩
  else none

/-- Whether the walk goes on after `hits` rewritten candidates. -/
def afterHits (r : CompiledRule) (hits : Nat) : Flow :=
  if 0 < r.limit ∧ r.limit ≤ hits then .nextRule else .next

def transformActor (r : CompiledRule) (a : Actor) (this : Option MaterialId) (p : Binary32)
    (hits : Nat) (s : Scene) : Flow × Nat × Scene :=
  match this with
  | none => (afterHits r hits, hits, s)
  | some this =>
    let (passed, s) := s.chance p
    if passed && this ≠ a.id then (.changed, hits, s.write r.commit a.index this)
    else (afterHits r hits, hits, s)

/-- Rewrites the candidate behind its chance, then the acting cell. A candidate that is the acting
cell ends its turn. -/
def transform (r : CompiledRule) (a : Actor) (c : Candidate) (this other : Option MaterialId)
    (p q : Binary32) (hits : Nat) (s : Scene) : Flow × Nat × Scene :=
  match other with
  | none => transformActor r a this p hits s
  | some into =>
    let (passed, s) := s.chance q
    if passed && into ≠ c.id then
      let s := s.write r.commit c.index into
      if c.index = a.index then (.changed, hits, s) else transformActor r a this p (hits + 1) s
    else transformActor r a this p hits s

def swap (r : CompiledRule) (a : Actor) (c : Candidate) (p : Binary32) (s : Scene) : Flow × Scene :=
  if c.index = a.index ∨ s.isStamped c.index then (.next, s)
  else
    let (passed, s) := s.chance p
    if passed then (.changed, s.move r a.index c.index) else (.next, s)

/-- Twice the difference in density. -/
def sinkChance (b : RuleBook) (a : Actor) (c : Candidate) : Binary32 :=
  ((b.density a.id).sub (b.density c.id)).double

def densitySwap (b : RuleBook) (r : CompiledRule) (a : Actor) (c : Candidate) (s : Scene) :
    Flow × Scene :=
  if s.isStamped c.index then (.next, s)
  else
    let p := sinkChance b a c
    if p.le .zero then (.next, s)
    else
      let (passed, s) := s.chance p
      if passed then (.changed, s.move r a.index c.index) else (.next, s)

/-- Where the acting cell lands when thrown `reach` cells, if it may land there. -/
def throwTarget? (a : Actor) (sx sy reach : Int) (allow : IdSet) (s : Scene) : Option Nat :=
  let x := a.x + sx * reach
  let y := a.y + sy * reach
  if s.grid.inBounds x y then
    let t := s.grid.index x.toNat y.toNat
    if allow.contains (s.grid.cell t) && !s.isStamped t then some t else none
  else none

def throwActor (r : CompiledRule) (a : Actor) (sx sy reach : Int) (allow : IdSet) (s : Scene) :
    Flow × Scene :=
  match throwTarget? a sx sy reach allow s with
  | some t => (.changed, s.move r a.index t)
  | none => (.next, s)

/-- Where the candidate lands when pulled `back` cells, if both cells are free for that. -/
def pullTarget? (a : Actor) (c : Candidate) (sx sy back : Int) (allow : IdSet) (s : Scene) :
    Option Nat :=
  let x := c.x - sx * back
  let y := c.y - sy * back
  if s.grid.inBounds x y then
    let t := s.grid.index x.toNat y.toNat
    if t = a.index ∨ t = c.index ∨ s.isStamped c.index ∨ s.isStamped t
        ∨ !allow.contains (s.grid.cell t) then none
    else some t
  else none

def pullCandidate (r : CompiledRule) (a : Actor) (c : Candidate) (sx sy back : Int) (allow : IdSet)
    (s : Scene) : Flow × Scene :=
  match pullTarget? a c sx sy back allow s with
  | some t => (.next, s.move r c.index t)
  | none => (.next, s)

def directionSwap (r : CompiledRule) (a : Actor) (c : Candidate) (reach : Int) (allow : IdSet)
    (s : Scene) : Flow × Scene :=
  let sx := c.dx.sign
  let sy := c.dy.sign
  if sx = 0 ∧ sy = 0 then (.next, s)
  else if 0 < reach then throwActor r a sx sy reach allow s
  else pullCandidate r a c sx sy (-reach) allow s

def apply (b : RuleBook) (r : CompiledRule) (a : Actor) (c : Candidate) (o : Outcome) (hits : Nat)
    (s : Scene) : Flow × Nat × Scene :=
  match o with
  | .noop => (.next, hits, s)
  | .stop => (.halt, hits, s)
  | .transform this other p q => transform r a c this other p q hits s
  | .swap p => let (f, s) := swap r a c p s; (f, hits, s)
  | .densitySwap => let (f, s) := densitySwap b r a c s; (f, hits, s)
  | .directionSwap reach allow =>
    let (f, s) := directionSwap r a c reach.toInt allow s
    (f, hits, s)

def visit (b : RuleBook) (r : CompiledRule) (a : Actor) (k hits : Nat) (s : Scene) :
    Flow × Nat × Scene :=
  match candidate? s.grid a (r.offset k) with
  | none => (.next, hits, s)
  | some c =>
    let slot := r.slot c.id
    if slot = noMatch then (.next, hits, s) else apply b r a c (r.outcome slot) hits s

def walk (b : RuleBook) (r : CompiledRule) (a : Actor) : List Nat → Nat → Scene → Flow × Scene
  | [], _, s => (.nextRule, s)
  | k :: ks, hits, s =>
    match visit b r a k hits s with
    | (.next, hits, s) => walk b r a ks hits s
    | (flow, _, s) => (flow, s)

def sample (b : RuleBook) (r : CompiledRule) (a : Actor) : Nat → Nat → Scene → Flow × Scene
  | 0, _, s => (.nextRule, s)
  | n + 1, hits, s =>
    let (k, s) := s.below r.count.toNat
    match visit b r a k hits s with
    | (.next, hits, s) => sample b r a n hits s
    | (flow, _, s) => (flow, s)

def fire (b : RuleBook) (r : CompiledRule) (a : Actor) (s : Scene) : Flow × Scene :=
  match r.starts with
  | some starts =>
    let (g, s) := s.below (CompiledRule.groupCount starts)
    let (first, last) := CompiledRule.group starts g
    walk b r a (List.range' first (last - first)) 0 s
  | none => sample b r a r.samples 0 s

/-- Tries the rules in order; true if the acting cell has changed or moved. -/
def tryRules (b : RuleBook) (a : Actor) : List CompiledRule → Scene → Bool × Scene
  | [], s => (false, s)
  | r :: rs, s =>
    let (passed, s) := s.countAttempted.chance r.chance
    if passed then
      match fire b r a s.countFired with
      | (.halt, s) => (false, s)
      | (.changed, s) => (true, s)
      | (_, s) => tryRules b a rs s
    else tryRules b a rs s

end Firing

/-- The turn of the cell at `x`, `y` in a pass. A material without rules has none. -/
def runCell (b : RuleBook) (pass : Pass) (x y : Nat) (s : Scene) : Bool × Scene :=
  let i := s.grid.index x y
  let id := s.grid.cell i
  match b.rules pass id with
  | [] => (false, s)
  | rules => Firing.tryRules b ⟨x, y, i, id⟩ rules s.countVisited

end Sandfall
