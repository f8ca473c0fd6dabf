import Sandfall.Proofs.History

/-!
The program with every access checked. A cell, stamp, chunk, outcome, offset or group is read or
written only inside its array, a cell is put into a list or a queue only if its number fits a word,
and a whole grid is copied only from as many cells; otherwise there is no result. Tables by ids have
an entry for every id and need no check.
-/

namespace Sandfall.Checked

/-! Cells and stamps. -/

def cell (g : Grid) (i : Nat) : Option MaterialId := g.cells[i]?

def setCell (g : Grid) (i : Nat) (id : MaterialId) : Option Grid :=
  if i < g.size then some (g.set i id) else none

def get (g : Grid) (x y : Int) : Option MaterialId :=
  if g.inBounds x y then cell g (g.index x.toNat y.toNat) else some MaterialId.outside

def slice (g : Grid) (first last : Nat) : Option (List MaterialId) :=
  if first ≤ last ∧ last ≤ g.size then some ((List.range' first (last - first)).map g.cell) else none

def word (i : Nat) : Option UInt32 := if i < UInt32.size then some (UInt32.ofNat i) else none

def isStamped (s : Scene) (i : Nat) : Option Bool :=
  s.chunks.stamps.marks[i]?.map fun mark => decide (mark = s.chunks.stamps.parity)

def stamp {n : Nat} (s : Stamps n) (i : Nat) : Option (Stamps n) := do
  let mark ← s.marks[i]?
  if mark = s.parity then return s
  else
    let w ← word i
    return { s with marks := s.marks.setIfInBounds i s.parity, stamped := w :: s.stamped }

def wipe {n : Nat} (marks : Vector UInt8 n) (i : UInt32) : Option (Vector UInt8 n) :=
  if i.toNat < n then some (marks.setIfInBounds i.toNat 0) else none

def beginStamps {n : Nat} (s : Stamps n) : Option (Stamps n) := do
  let marks ← s.stamped.foldlM wipe s.marks
  return { marks, parity := if s.parity = 1 then 2 else 1, stamped := [] }

/-! Chunks. Waking is told the number of a chunk and does nothing beyond the last one. -/

def wake (c : Chunks) (i : Nat) : Option Chunks :=
  if i < c.count then do
    let _ ← c.sleep[i]?
    let _ ← c.active[i]?
    return c.wake i
  else return c

def touch (c : Chunks) (i : Nat) : Option Chunks := do
  let c ← wake c i
  return c.setMark i

def wakeAll (c : Chunks) : Option Chunks := do
  let c ← (List.range c.count).foldlM wake c
  return c.markAllDirty

def wakeDisc (c : Chunks) (cx cy radius : Int32) : Option Chunks :=
  let r := max radius 0
  let left := max (cx - r) 0
  let top := max (cy - r) 0
  let right := min (cx + r) (Int32.ofNat c.width - 1)
  let bottom := min (cy + r) (Int32.ofNat c.height - 1)
  if right < left ∨ bottom < top then some c
  else
    (Chunks.span top bottom).foldlM (fun c ky =>
      (Chunks.span left right).foldlM (fun c kx =>
        if c.meetsDisc cx cy r kx ky then touch c (c.indexOf kx ky) else some c) c) c

def setSleepingEnabled (c : Chunks) (enabled : Bool) : Option Chunks :=
  let c := { c with sleepingEnabled := enabled }
  if enabled then some c else wakeAll c

/-- The rows of a chunk, each a slice of the grid. -/
def rowsOf (c : Chunks) (g : Grid) (i : Nat) : Option (List (List MaterialId)) :=
  let b := c.bounds (c.coords i).1 (c.coords i).2
  (List.range' b.top (b.bottom - b.top)).mapM fun y =>
    slice g (y * c.width + b.left) (y * c.width + b.right)

def checksum (c : Chunks) (g : Grid) (i : Nat) : Option UInt32 := do
  let rows ← rowsOf c g i
  return rows.foldl (fun h row => row.foldl Checksum.mix h) Checksum.start

def noteChange (c : Chunks) (i : Nat) (sum : UInt32) : Option Chunks := do
  let _ ← c.sleep[i]?
  let c := { c with
    checksums := c.checksums.setIfInBounds i sum
    sleep := c.sleep.setIfInBounds i 0
    dirty := c.dirty.setIfInBounds i true }
  (c.neighbours i).foldlM wake c

def noteQuiet (c : Chunks) (g : Grid) (keepsAwake : MaterialId → Bool) (i : Nat) :
    Option Chunks := do
  let ticks ← c.sleep[i]?
  let ticks := Chunks.tickUp ticks
  let c := { c with sleep := c.sleep.setIfInBounds i ticks }
  if !c.sleepingEnabled || ticks < Chunks.sleepThreshold then return c
  else
    let rows ← rowsOf c g i
    if rows.any fun row => row.any keepsAwake then
      return { c with sleep := c.sleep.setIfInBounds i 0 }
    else
      let _ ← c.active[i]?
      return { c with
        active := c.active.setIfInBounds i false, slept := Chunks.countUp c.slept }

def reconcile (c : Chunks) (g : Grid) (keepsAwake : MaterialId → Bool) (i : Nat) (sum : UInt32) :
    Option Chunks := do
  let last ← c.checksums[i]?
  if sum ≠ last then noteChange c i sum else noteQuiet c g keepsAwake i

def updateActivity (c : Chunks) (g : Grid) (keepsAwake : MaterialId → Bool) : Option Chunks := do
  let sums ← ((List.range c.count).filter c.isActive).mapM fun i => do
    let sum ← checksum c g i
    return (i, sum)
  sums.foldlM (fun c (i, sum) => reconcile c g keepsAwake i sum) c

/-! Scenes. -/

def put (s : Scene) (i : Nat) (id : MaterialId) : Option Scene := do
  let grid ← setCell s.grid i id
  let chunks ← touch s.chunks (s.chunks.ofCell (s.grid.coords i).1 (s.grid.coords i).2)
  return { s with grid, chunks }

def stampCell (s : Scene) (i : Nat) : Option Scene := do
  let stamps ← stamp s.chunks.stamps i
  return { s with chunks := { s.chunks with stamps } }

def pushPass (s : Scene) (w : Write) : Scene := { s with pending := s.pending.pushPass w }

def pushTick (s : Scene) (w : Write) : Scene := { s with pending := s.pending.pushTick w }

def write (s : Scene) (commit : Commit) (i : Nat) (id : MaterialId) : Option Scene :=
  match commit with
  | .immediate => put s i id
  | .endOfPass => do
    let w ← word i
    return pushPass s (.set w id)
  | .endOfTick => do
    let w ← word i
    return pushTick s (.set w id)

def exchange (s : Scene) (commit : Commit) (source target : Nat) : Option Scene := do
  let moving ← cell s.grid source
  let displaced ← cell s.grid target
  match commit with
  | .immediate =>
    let s ← put s target moving
    put s source displaced
  | .endOfPass =>
    let source ← word source
    let target ← word target
    return pushPass s (.exchange source target moving displaced)
  | .endOfTick =>
    let source ← word source
    let target ← word target
    return pushTick s (.exchange source target moving displaced)

def stampMove (s : Scene) (r : CompiledRule) (source target : Nat) : Option Scene := do
  let deferred := r.commit ≠ .immediate
  let s ← if r.stamp || deferred then stampCell s target else some s
  if deferred then stampCell s source else some s

def record (s : Scene) (source target : Nat) : Option Scene :=
  match s.trace with
  | none => some s
  | some t => do
    let source ← word source
    let target ← word target
    return { s with trace := some { t with moves := t.moves.push ⟨t.pass, source, target⟩ } }

def move (s : Scene) (r : CompiledRule) (source target : Nat) : Option Scene := do
  let s ← exchange s r.commit source target
  let s ← stampMove s r source target
  record s source target

def applyWrite (s : Scene) : Write → Option (Nat × Scene)
  | .set i id => do
    let s ← put s i.toNat id
    return (1, s)
  | .exchange source target moving displaced => do
    let here ← cell s.grid source.toNat
    let there ← cell s.grid target.toNat
    if here = moving ∧ there = displaced then
      let s ← put s target.toNat moving
      let s ← put s source.toNat displaced
      return (2, s)
    else return (0, s)

def applyAll (s : Scene) (ws : List Write) : Option (Nat × Scene) :=
  ws.foldlM (fun (n, s) w => do
    let (k, s) ← applyWrite s w
    return (n + k, s)) (0, s)

def beginPass (s : Scene) : Option Scene := do
  let stamps ← beginStamps s.chunks.stamps
  return { s with chunks := { s.chunks with stamps }, trace := s.trace.map Trace.beginPass }

/-! Firing. -/

open Firing

def candidate (g : Grid) (a : Actor) (offset : Int × Int) : Option (Option Candidate) :=
  let x := a.x + offset.1
  let y := a.y + offset.2
  if g.inBounds x y then do
    let i := g.index x.toNat y.toNat
    let id ← cell g i
    return some ⟨offset.1, offset.2, x.toNat, y.toNat, i, id⟩
  else return none

def transformActor (r : CompiledRule) (a : Actor) (this : Option MaterialId) (p : Binary32)
    (hits : Nat) (s : Scene) : Option (Flow × Nat × Scene) :=
  match this with
  | none => some (afterHits r hits, hits, s)
  | some this =>
    let (passed, s) := s.chance p
    if passed && this ≠ a.id then do
      let s ← write s r.commit a.index this
      return (.changed, hits, s)
    else some (afterHits r hits, hits, s)

def transform (r : CompiledRule) (a : Actor) (c : Candidate) (this other : Option MaterialId)
    (p q : Binary32) (hits : Nat) (s : Scene) : Option (Flow × Nat × Scene) :=
  match other with
  | none => transformActor r a this p hits s
  | some into =>
    let (passed, s) := s.chance q
    if passed && into ≠ c.id then do
      let s ← write s r.commit c.index into
      if c.index = a.index then return (.changed, hits, s)
      else transformActor r a this p (hits + 1) s
    else transformActor r a this p hits s

def swap (r : CompiledRule) (a : Actor) (c : Candidate) (p : Binary32) (s : Scene) :
    Option (Flow × Scene) :=
  if c.index = a.index then some (.next, s)
  else do
    if ← isStamped s c.index then return (.next, s)
    else
      let (passed, s) := s.chance p
      if passed then
        let s ← move s r a.index c.index
        return (.changed, s)
      else return (.next, s)

def densitySwap (b : RuleBook) (r : CompiledRule) (a : Actor) (c : Candidate) (s : Scene) :
    Option (Flow × Scene) := do
  if ← isStamped s c.index then return (.next, s)
  else
    let p := sinkChance b a c
    if p.le .zero then return (.next, s)
    else
      let (passed, s) := s.chance p
      if passed then
        let s ← move s r a.index c.index
        return (.changed, s)
      else return (.next, s)

def throwTarget (a : Actor) (sx sy reach : Int) (allow : IdSet) (s : Scene) :
    Option (Option Nat) :=
  let x := a.x + sx * reach
  let y := a.y + sy * reach
  if s.grid.inBounds x y then do
    let t := s.grid.index x.toNat y.toNat
    let id ← cell s.grid t
    let stamped ← isStamped s t
    return if allow.contains id && !stamped then some t else none
  else some none

def pullTarget (a : Actor) (c : Candidate) (sx sy back : Int) (allow : IdSet) (s : Scene) :
    Option (Option Nat) :=
  let x := c.x - sx * back
  let y := c.y - sy * back
  if s.grid.inBounds x y then do
    let t := s.grid.index x.toNat y.toNat
    let here ← isStamped s c.index
    let there ← isStamped s t
    let id ← cell s.grid t
    return if t = a.index ∨ t = c.index ∨ here ∨ there ∨ !allow.contains id then none else some t
  else some none

def directionSwap (r : CompiledRule) (a : Actor) (c : Candidate) (reach : Int) (allow : IdSet)
    (s : Scene) : Option (Flow × Scene) :=
  let sx := c.dx.sign
  let sy := c.dy.sign
  if sx = 0 ∧ sy = 0 then some (.next, s)
  else if 0 < reach then do
    match ← throwTarget a sx sy reach allow s with
    | some t =>
      let s ← move s r a.index t
      return (.changed, s)
    | none => return (.next, s)
  else do
    match ← pullTarget a c sx sy (-reach) allow s with
    | some t =>
      let s ← move s r c.index t
      return (.next, s)
    | none => return (.next, s)

def apply (b : RuleBook) (r : CompiledRule) (a : Actor) (c : Candidate) (o : Outcome) (hits : Nat)
    (s : Scene) : Option (Flow × Nat × Scene) :=
  match o with
  | .noop => some (.next, hits, s)
  | .stop => some (.halt, hits, s)
  | .transform this other p q => transform r a c this other p q hits s
  | .swap p => do
    let (f, s) ← swap r a c p s
    return (f, hits, s)
  | .densitySwap => do
    let (f, s) ← densitySwap b r a c s
    return (f, hits, s)
  | .directionSwap reach allow => do
    let (f, s) ← directionSwap r a c reach.toInt allow s
    return (f, hits, s)

def visit (b : RuleBook) (r : CompiledRule) (a : Actor) (k hits : Nat) (s : Scene) :
    Option (Flow × Nat × Scene) := do
  let o ← r.offsets[k]?
  match ← candidate s.grid a (o.1.toInt, o.2.toInt) with
  | none => return (.next, hits, s)
  | some c =>
    let slot := r.slot c.id
    if slot = noMatch then return (.next, hits, s)
    else
      let o ← r.outcomes[slot.toNat]?
      apply b r a c o hits s

def walk (b : RuleBook) (r : CompiledRule) (a : Actor) :
    List Nat → Nat → Scene → Option (Flow × Scene)
  | [], _, s => some (.nextRule, s)
  | k :: ks, hits, s => do
    match ← visit b r a k hits s with
    | (.next, hits, s) => walk b r a ks hits s
    | (flow, _, s) => return (flow, s)

def sample (b : RuleBook) (r : CompiledRule) (a : Actor) :
    Nat → Nat → Scene → Option (Flow × Scene)
  | 0, _, s => some (.nextRule, s)
  | n + 1, hits, s => do
    let (k, s) := s.below r.count.toNat
    match ← visit b r a k hits s with
    | (.next, hits, s) => sample b r a n hits s
    | (flow, _, s) => return (flow, s)

def fire (b : RuleBook) (r : CompiledRule) (a : Actor) (s : Scene) : Option (Flow × Scene) :=
  match r.starts with
  | some starts => do
    let (g, s) := s.below (CompiledRule.groupCount starts)
    let first ← starts[g]?
    let last ← starts[g + 1]?
    walk b r a (List.range' first.toNat (last.toNat - first.toNat)) 0 s
  | none => sample b r a r.samples 0 s

def tryRules (b : RuleBook) (a : Actor) : List CompiledRule → Scene → Option (Bool × Scene)
  | [], s => some (false, s)
  | r :: rs, s =>
    let (passed, s) := s.countAttempted.chance r.chance
    if passed then do
      match ← fire b r a s.countFired with
      | (.halt, s) => return (false, s)
      | (.changed, s) => return (true, s)
      | (_, s) => tryRules b a rs s
    else tryRules b a rs s

def runCell (b : RuleBook) (pass : Pass) (x y : Nat) (s : Scene) : Option (Bool × Scene) := do
  let i := s.grid.index x y
  let id ← cell s.grid i
  match b.rules pass id with
  | [] => return (false, s)
  | rules => tryRules b ⟨x, y, i, id⟩ rules s.countVisited

/-! Handlers. -/

def place (s : Scene) (b : RuleBook) (x y : Int) (id : MaterialId) : Option (Bool × Scene) :=
  if s.grid.inBounds x y && b.isKnown id then do
    let s ← put s (s.grid.index x.toNat y.toNat) id
    return (true, s)
  else some (false, s)

def isEmptyAt (s : Scene) (x y : Int) : Option Bool := do
  let id ← get s.grid x y
  return decide (id = MaterialId.empty)

/-- Places are looked at until one is empty. -/
def firstEmpty (s : Scene) : List (Int × Int) → Option (Option (Int × Int))
  | [] => some none
  | (x, y) :: places => do
    if ← isEmptyAt s x y then return some (x, y) else firstEmpty s places

def emit (b : RuleBook) (p : Post) (material : MaterialId) (chance : Binary32) (s : Scene) :
    Option Scene :=
  let (x, s) := s.unit
  if chance.le x then some s
  else do
    let (start, s) := s.below 4
    let places := [0, 1, 2, 3].map fun i =>
      ((p.x : Int) + (Handler.around (start + i)).1, (p.y : Int) + (Handler.around (start + i)).2)
    match ← firstEmpty s places with
    | some (x, y) =>
      let (_, s) ← place s b x y material
      return s
    | none => return s

def perform (b : RuleBook) (p : Post) (s : Scene) : Action → Option Scene
  | .self => some (s.note (.self p.x p.y p.material))
  | .get dx dy => do
    let id ← get s.grid (p.x + dx) (p.y + dy)
    return s.note (.material id)
  | .isEmpty dx dy => do
    let empty ← isEmptyAt s (p.x + dx) (p.y + dy)
    return s.note (.flag empty)
  | .set dx dy id => do
    let (done, s) ← place s b (p.x + dx) (p.y + dy) id
    return s.note (.flag done)
  | .random =>
    let (x, s) := s.unit
    some (s.note (.random x))
  | .below n =>
    let (k, s) := s.below n
    some (s.note (.number k))
  | .immobile id => some (s.note (.flag (b.isImmobile id)))
  | .walk => do
    let (d, s) := s.below 4
    let x := p.x + (Handler.heading d).1
    let y := p.y + (Handler.heading d).2
    if ← isEmptyAt s x y then
      let (_, s) ← place s b x y p.material
      let (_, s) ← place s b p.x p.y MaterialId.empty
      return s.note (.walk d true)
    else return s.note (.walk d false)

def update (b : RuleBook) (p : Post) (s : Scene) : Handler → Option Scene
  | .emitter material chance => emit b p material chance s
  | .script actions => actions.foldlM (perform b p) s

/-! Passes and ticks. -/

def visitCell (b : RuleBook) (hs : Handlers) (pass : Pass) (y : Nat) (s : Scene) (x : Nat) :
    Option Scene := do
  let i := s.grid.index x y
  let id ← cell s.grid i
  if id = MaterialId.empty then return s
  else if ← isStamped s i then return s
  else if b.isSpecial id then
    match pass, hs.get id with
    | .falling, some h =>
      let s ← update b ⟨x, y, id⟩ s h
      return s.countHandled
    | _, _ => return s
  else
    let (_, s) ← runCell b pass x y s
    return s

def visitChunk (b : RuleBook) (hs : Handlers) (pass : Pass) (y : Nat) (right : Bool) (s : Scene)
    (cx : Nat) : Option Scene := do
  if ← s.chunks.active[s.chunks.indexOf cx (y / Chunks.edge)]? then
    (Scan.directed right (Scan.columns s.grid.width cx)).foldlM (visitCell b hs pass y) s
  else return s

def visitRow (b : RuleBook) (hs : Handlers) (pass : Pass) (s : Scene) (y : Nat) : Option Scene :=
  let (right, s) := s.chance .half
  (Scan.directed right (List.range s.chunks.across)).foldlM (visitChunk b hs pass y right) s

def runPass (b : RuleBook) (hs : Handlers) (pass : Pass) (s : Scene) : Option Scene := do
  let s ← beginPass s
  let s ← (Scan.rowOrder pass s.grid.height).foldlM (visitRow b hs pass) s
  let flushed ← applyAll s.dropPass s.pending.pass.toList
  return Scan.countWritten flushed

def tick (b : RuleBook) (hs : Handlers) (s : Scene) : Option Scene := do
  let s ← runPass b hs .rising (World.beginTick s)
  let s ← runPass b hs .falling s
  let flushed ← applyAll s.dropTick s.pending.tick.toList
  let s := Scan.countWritten flushed
  let chunks ← updateActivity s.chunks s.grid b.keepsAwake
  return { s with chunks }

/-! Worlds. -/

def paint (id : MaterialId) (g : Grid) (place : Nat × Nat) : Option Grid :=
  setCell g (g.index place.1 place.2) id

def fillDisc (w : World) (cx cy radius : Int32) (id : MaterialId) : Option World :=
  if radius < 0 || !w.book.isKnown id then some w
  else do
    let cells := World.discCells w.scene.grid cx cy radius
    let grid ← cells.foldlM (paint id) w.scene.grid
    let chunks ← if cells.isEmpty then some w.scene.chunks else wakeDisc w.scene.chunks cx cy radius
    return { w with scene := { w.scene with grid, chunks } }

def clear (w : World) : Option World := do
  let chunks ← wakeAll w.scene.chunks.clearStamps
  return { w with scene := { w.scene with grid := w.scene.grid.clear, pending := .empty, chunks } }

def settle (s : Scene) : Option Scene := do
  let chunks ← wakeAll s.chunks.clearStamps.resetChecksums
  return { s with pending := .empty, chunks, trace := s.trace.map Trace.clear }

/-- A grid made anew for a save of other dimensions. -/
def fitGrid (g : Grid) (width height : Nat) : Grid :=
  if width = g.width ∧ height = g.height then g else .blank width height

/-- Copies cells over a whole grid, of which there must be as many. -/
def copyGrid (g : Grid) (cells : List MaterialId) : Option Grid :=
  if cells.length = g.size then some (.ofList g.width g.height cells) else none

def restore (w : World) (s : Snapshot) : Option World := do
  let seed := s.seed.getD w.seed
  let fits := s.width = w.scene.grid.width ∧ s.height = w.scene.grid.height
  let chunks := if fits then w.scene.chunks else w.scene.chunks.resize s.width s.height
  let grid ← copyGrid (fitGrid w.scene.grid s.width s.height) s.cells
  let scene ← settle { w.scene with grid, chunks, random := .ofSeed (s.rng.getD seed) }
  return { w with scene, seed, steps := s.step.getD 0 }

def load (w : World) (bytes : List UInt8) : Option World :=
  match Snapshot.decode bytes with
  | .error _ => some w
  | .ok s =>
    match World.firstUnknown? w.book s.cells with
    | some _ => some w
    | none => restore w s

def reset (w : World) (seed : UInt32) : Option World := do
  let scene ← settle { w.scene with grid := w.scene.grid.clear, random := .ofSeed seed }
  return { w with scene, seed, steps := 0 }

def step (w : World) : Option World := do
  let scene ← tick w.book w.handlers w.scene
  let steps := w.steps + 1
  return { w with scene, steps, perf := if w.perfEnabled then World.perfOf scene steps else w.perf }

def obey (w : World) : Command → Option World
  | .set x y id => do
    let (_, scene) ← place w.scene w.book x y id
    return { w with scene }
  | .fillDisc cx cy radius id => fillDisc w cx cy radius id
  | .clear => clear w
  | .step => step w
  | .load bytes => load w bytes
  | .reset seed => reset w seed
  | .setSleeping enabled => do
    let chunks ← setSleepingEnabled w.scene.chunks enabled
    return { w with scene := { w.scene with chunks } }
  | .enablePerf enabled => some (w.enablePerf enabled)
  | .enableTrace enabled => some (w.enableTrace enabled)
  | .bind key h => some (w.bind key h)
  | .collectDirty => some w.collectDirty.2

def run (w : World) (commands : List Command) : Option World := commands.foldlM obey w

end Sandfall.Checked
