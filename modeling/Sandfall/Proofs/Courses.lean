import Sandfall.Proofs.Turns

/-! The course of a turn: all that is done in it, in the order in which it is done. Beside each
function of the interpreter stands its course, found by looking at the scene only; the scene that
the function leaves is the course performed on the scene it has found (`visit_course`,
`fire_course`, `runCell_course`). So nothing is done off the course. -/

namespace Sandfall

/-- What may be done in a turn. -/
inductive Event where
  /-- The cell is counted as visited. -/
  | visited
  /-- A rule is counted as tried. -/
  | attempted
  /-- A rule is counted as fired. -/
  | fired
  /-- A random word is drawn. -/
  | draw
  /-- A rule looks where its `k`-th offset leads. -/
  | look (k : Nat)
  /-- The outcome of a matched candidate is carried out. -/
  | outcome (c : Candidate) (o : Outcome)
  | deed (d : Deed)

namespace Scene

/-- The scene after an event. To look, and to choose an outcome, changes nothing. -/
def perform (s : Scene) : Event → Scene
  | .visited => s.countVisited
  | .attempted => s.countAttempted
  | .fired => s.countFired
  | .draw => { s with random := s.random.next.2 }
  | .look _ => s
  | .outcome _ _ => s
  | .deed d => s.enact d

def performAll (s : Scene) (es : List Event) : Scene := es.foldl perform s

@[simp] theorem performAll_nil (s : Scene) : s.performAll [] = s := rfl

@[simp] theorem performAll_cons (s : Scene) (e : Event) (es : List Event) :
    s.performAll (e :: es) = (s.perform e).performAll es := rfl

@[simp] theorem performAll_append (s : Scene) (es es' : List Event) :
    s.performAll (es ++ es') = (s.performAll es).performAll es' :=
  List.foldl_append

theorem below_snd (s : Scene) (n : Nat) : (s.below n).2 = s.perform .draw := rfl

theorem sameSize_perform (s : Scene) (e : Event) : s.SameSize (s.perform e) := by
  cases e with
  | deed d =>
    cases d with
    | place i id => exact ⟨rfl, rfl⟩
    | rewrite r i id => exact sameSize_write s r.commit i id
    | move r source target => exact sameSize_move s r source target
  | _ => exact ⟨rfl, rfl⟩

theorem sameSize_performAll (s : Scene) (es : List Event) : s.SameSize (s.performAll es) := by
  induction es generalizing s with
  | nil => exact ⟨rfl, rfl⟩
  | cons e es ih =>
    have he := s.sameSize_perform e
    have hes := ih (s.perform e)
    exact ⟨hes.1.trans he.1, hes.2.trans he.2⟩

end Scene

/-- How a part of a turn goes: how things go on after it, how many candidates its rule has rewritten
by then, and what is done. -/
structure Course where
  flow : Flow
  hits : Nat
  events : List Event

namespace Course

/-- The course, with something done before it. -/
def after (es : List Event) (k : Course) : Course := { k with events := es ++ k.events }

/-- What the part of the turn gives if it has this course. -/
def result (k : Course) (s : Scene) : Flow × Nat × Scene := (k.flow, k.hits, s.performAll k.events)

@[simp] theorem after_flow (es : List Event) (k : Course) : (k.after es).flow = k.flow := rfl

@[simp] theorem after_hits (es : List Event) (k : Course) : (k.after es).hits = k.hits := rfl

@[simp] theorem after_events (es : List Event) (k : Course) :
    (k.after es).events = es ++ k.events := rfl

theorem result_after (es : List Event) (k : Course) (s : Scene) :
    (k.after es).result s = k.result (s.performAll es) := by
  simp only [result, after_flow, after_hits, after_events, Scene.performAll_append]

end Course

namespace Firing

def actorCourse (r : CompiledRule) (a : Actor) (this : Option MaterialId) (p : Binary32)
    (hits : Nat) (s : Scene) : Course :=
  match this with
  | none => ⟨afterHits r hits, hits, []⟩
  | some this =>
    if (s.chance p).1 && this ≠ a.id then
      ⟨.changed, hits, [.draw, .deed (.rewrite r a.index this)]⟩
    else ⟨afterHits r hits, hits, [.draw]⟩

def transformCourse (r : CompiledRule) (a : Actor) (c : Candidate) (this other : Option MaterialId)
    (p q : Binary32) (hits : Nat) (s : Scene) : Course :=
  match other with
  | none => actorCourse r a this p hits s
  | some into =>
    let t := s.perform .draw
    if (s.chance q).1 && into ≠ c.id then
      let d := Deed.rewrite r c.index into
      if c.index = a.index then ⟨.changed, hits, [.draw, .deed d]⟩
      else (actorCourse r a this p (hits + 1) (t.enact d)).after [.draw, .deed d]
    else (actorCourse r a this p hits t).after [.draw]

def swapCourse (r : CompiledRule) (a : Actor) (c : Candidate) (p : Binary32) (hits : Nat)
    (s : Scene) : Course :=
  if c.index = a.index ∨ s.isStamped c.index then ⟨.next, hits, []⟩
  else if (s.chance p).1 then ⟨.changed, hits, [.draw, .deed (.move r a.index c.index)]⟩
  else ⟨.next, hits, [.draw]⟩

def densityCourse (b : RuleBook) (r : CompiledRule) (a : Actor) (c : Candidate) (hits : Nat)
    (s : Scene) : Course :=
  let p := sinkChance b a c
  if s.isStamped c.index then ⟨.next, hits, []⟩
  else if p.le .zero then ⟨.next, hits, []⟩
  else if (s.chance p).1 then ⟨.changed, hits, [.draw, .deed (.move r a.index c.index)]⟩
  else ⟨.next, hits, [.draw]⟩

def directionCourse (r : CompiledRule) (a : Actor) (c : Candidate) (reach : Int) (allow : IdSet)
    (hits : Nat) (s : Scene) : Course :=
  let sx := c.dx.sign
  let sy := c.dy.sign
  if sx = 0 ∧ sy = 0 then ⟨.next, hits, []⟩
  else if 0 < reach then
    match throwTarget? a sx sy reach allow s with
    | some t => ⟨.changed, hits, [.deed (.move r a.index t)]⟩
    | none => ⟨.next, hits, []⟩
  else
    match pullTarget? a c sx sy (-reach) allow s with
    | some t => ⟨.next, hits, [.deed (.move r c.index t)]⟩
    | none => ⟨.next, hits, []⟩

def applyCourse (b : RuleBook) (r : CompiledRule) (a : Actor) (c : Candidate) (o : Outcome)
    (hits : Nat) (s : Scene) : Course :=
  match o with
  | .noop => ⟨.next, hits, []⟩
  | .stop => ⟨.halt, hits, []⟩
  | .transform this other p q => transformCourse r a c this other p q hits s
  | .swap p => swapCourse r a c p hits s
  | .densitySwap => densityCourse b r a c hits s
  | .directionSwap reach allow => directionCourse r a c reach.toInt allow hits s

def visitCourse (b : RuleBook) (r : CompiledRule) (a : Actor) (k hits : Nat) (s : Scene) : Course :=
  match candidate? s.grid a (r.offset k) with
  | none => ⟨.next, hits, [.look k]⟩
  | some c =>
    let slot := r.slot c.id
    if slot = noMatch then ⟨.next, hits, [.look k]⟩
    else (applyCourse b r a c (r.outcome slot) hits s).after [.look k, .outcome c (r.outcome slot)]

def walkCourse (b : RuleBook) (r : CompiledRule) (a : Actor) : List Nat → Nat → Scene → Course
  | [], hits, _ => ⟨.nextRule, hits, []⟩
  | k :: ks, hits, s =>
    let v := visitCourse b r a k hits s
    if v.flow = .next then (walkCourse b r a ks v.hits (s.performAll v.events)).after v.events
    else v

def sampleCourse (b : RuleBook) (r : CompiledRule) (a : Actor) : Nat → Nat → Scene → Course
  | 0, hits, _ => ⟨.nextRule, hits, []⟩
  | n + 1, hits, s =>
    let k := (s.below r.count.toNat).1
    let v := (visitCourse b r a k hits (s.perform .draw)).after [.draw]
    if v.flow = .next then (sampleCourse b r a n v.hits (s.performAll v.events)).after v.events
    else v

def fireCourse (b : RuleBook) (r : CompiledRule) (a : Actor) (s : Scene) : Course :=
  match r.starts with
  | some starts =>
    let g := CompiledRule.group starts (s.below (CompiledRule.groupCount starts)).1
    (walkCourse b r a (List.range' g.1 (g.2 - g.1)) 0 (s.perform .draw)).after [.draw]
  | none => sampleCourse b r a r.samples 0 s

/-- The course of the rules in turn. Each counts its own rewritten candidates. -/
def rulesCourse (b : RuleBook) (a : Actor) : List CompiledRule → Scene → Course
  | [], _ => ⟨.nextRule, 0, []⟩
  | r :: rs, s =>
    if (s.chance r.chance).1 then
      let begun := [.attempted, .draw, .fired]
      let f := (fireCourse b r a (s.performAll begun)).after begun
      if f.flow = .halt ∨ f.flow = .changed then f
      else (rulesCourse b a rs (s.performAll f.events)).after f.events
    else (rulesCourse b a rs (s.performAll [.attempted, .draw])).after [.attempted, .draw]

end Firing

def turnCourse (b : RuleBook) (pass : Pass) (x y : Nat) (s : Scene) : Course :=
  let i := s.grid.index x y
  let id := s.grid.cell i
  match b.rules pass id with
  | [] => ⟨.nextRule, 0, []⟩
  | rules => (Firing.rulesCourse b ⟨x, y, i, id⟩ rules s.countVisited).after [.visited]

/-! Within an outcome nothing is done but draws and deeds. -/

/-- The event is a draw or a deed. -/
def Event.Acts : Event → Prop
  | .draw => True
  | .deed _ => True
  | _ => False

namespace Firing

variable {b : RuleBook} {r : CompiledRule} {a : Actor} {c : Candidate}

theorem actorCourse_acts (this : Option MaterialId) (p : Binary32) (hits : Nat) (s : Scene) :
    ∀ e ∈ (actorCourse r a this p hits s).events, e.Acts := by
  cases this with
  | none => simp [actorCourse]
  | some this =>
    simp only [actorCourse]
    split_ifs <;> simp [Event.Acts]

theorem transformCourse_acts (this other : Option MaterialId) (p q : Binary32) (hits : Nat)
    (s : Scene) : ∀ e ∈ (transformCourse r a c this other p q hits s).events, e.Acts := by
  cases other with
  | none => exact actorCourse_acts this p hits s
  | some into =>
    have hrest := fun hits s => actorCourse_acts (r := r) (a := a) this p hits s
    simp only [transformCourse]
    split_ifs
    · simp [Event.Acts]
    · exact List.forall_mem_append.mpr ⟨by simp [Event.Acts], hrest _ _⟩
    · exact List.forall_mem_append.mpr ⟨by simp [Event.Acts], hrest _ _⟩

theorem applyCourse_acts (o : Outcome) (hits : Nat) (s : Scene) :
    ∀ e ∈ (applyCourse b r a c o hits s).events, e.Acts := by
  cases o with
  | noop => simp [applyCourse]
  | stop => simp [applyCourse]
  | transform this other p q => exact transformCourse_acts this other p q hits s
  | swap p =>
    simp only [applyCourse, swapCourse]
    split_ifs <;> simp [Event.Acts]
  | densitySwap =>
    simp only [applyCourse, densityCourse]
    split_ifs <;> simp [Event.Acts]
  | directionSwap reach allow =>
    simp only [applyCourse, directionCourse]
    split_ifs
    · simp
    · cases throwTarget? a c.dx.sign c.dy.sign reach.toInt allow s <;> simp [Event.Acts]
    · cases pullTarget? a c c.dx.sign c.dy.sign (-reach.toInt) allow s <;> simp [Event.Acts]

/-- A visit finds nothing to do, or it carries out the outcome of the candidate it sees. -/
theorem visitCourse_cases (k hits : Nat) (s : Scene) :
    visitCourse b r a k hits s = ⟨.next, hits, [.look k]⟩ ∨
      ∃ c o, c.Seen a s ∧ visitCourse b r a k hits s
        = (applyCourse b r a c o hits s).after [.look k, .outcome c o] := by
  simp only [visitCourse]
  cases hc : candidate? s.grid a (r.offset k) with
  | none => exact .inl rfl
  | some c =>
    by_cases hslot : r.slot c.id = noMatch
    · exact .inl (by simp only [hslot, if_true])
    · refine .inr ⟨c, r.outcome (r.slot c.id), candidate?_eq_some hc, ?_⟩
      simp only [hslot, if_false]

end Firing

/-! What is done is the course. -/

namespace Firing

variable {b : RuleBook} {r : CompiledRule} {a : Actor} {c : Candidate}

theorem transformActor_course (this : Option MaterialId) (p : Binary32) (hits : Nat) (s : Scene) :
    transformActor r a this p hits s = (actorCourse r a this p hits s).result s := by
  cases this with
  | none => rfl
  | some this =>
    simp only [transformActor, actorCourse]
    split_ifs <;> rfl

theorem transform_course (this other : Option MaterialId) (p q : Binary32) (hits : Nat)
    (s : Scene) :
    transform r a c this other p q hits s
      = (transformCourse r a c this other p q hits s).result s := by
  cases other with
  | none => exact transformActor_course this p hits s
  | some into =>
    simp only [transform, transformCourse]
    split_ifs
    · rfl
    · rw [Course.result_after]
      exact transformActor_course this p (hits + 1) _
    · rw [Course.result_after]
      exact transformActor_course this p hits _

theorem swap_course (p : Binary32) (hits : Nat) (s : Scene) :
    ((swap r a c p s).1, hits, (swap r a c p s).2) = (swapCourse r a c p hits s).result s := by
  simp only [swap, swapCourse]
  split_ifs <;> rfl

theorem densitySwap_course (hits : Nat) (s : Scene) :
    ((densitySwap b r a c s).1, hits, (densitySwap b r a c s).2)
      = (densityCourse b r a c hits s).result s := by
  simp only [densitySwap, densityCourse]
  split_ifs <;> rfl

theorem directionSwap_course (reach : Int) (allow : IdSet) (hits : Nat) (s : Scene) :
    ((directionSwap r a c reach allow s).1, hits, (directionSwap r a c reach allow s).2)
      = (directionCourse r a c reach allow hits s).result s := by
  simp only [directionSwap, directionCourse, throwActor, pullCandidate]
  split_ifs
  · rfl
  · cases throwTarget? a c.dx.sign c.dy.sign reach allow s <;> rfl
  · cases pullTarget? a c c.dx.sign c.dy.sign (-reach) allow s <;> rfl

theorem apply_course (o : Outcome) (hits : Nat) (s : Scene) :
    apply b r a c o hits s = (applyCourse b r a c o hits s).result s := by
  cases o with
  | noop => rfl
  | stop => rfl
  | transform this other p q => exact transform_course this other p q hits s
  | swap p => exact swap_course p hits s
  | densitySwap => exact densitySwap_course hits s
  | directionSwap reach allow => exact directionSwap_course reach.toInt allow hits s

theorem visit_course (k hits : Nat) (s : Scene) :
    visit b r a k hits s = (visitCourse b r a k hits s).result s := by
  simp only [visit, visitCourse]
  cases candidate? s.grid a (r.offset k) with
  | none => rfl
  | some c =>
    by_cases hslot : r.slot c.id = noMatch
    · simp only [hslot, if_true]
      rfl
    · simp only [hslot, if_false, Course.result_after]
      exact apply_course _ hits s

theorem walk_course (ks : List Nat) (hits : Nat) (s : Scene) :
    walk b r a ks hits s = ((walkCourse b r a ks hits s).flow,
      s.performAll (walkCourse b r a ks hits s).events) := by
  induction ks generalizing hits s with
  | nil => rfl
  | cons k ks ih =>
    rw [walk, walkCourse, visit_course, Course.result]
    cases hflow : (visitCourse b r a k hits s).flow with
    | next =>
      simp only [if_true, Course.after_flow, Course.after_events, Scene.performAll_append]
      exact ih _ _
    | _ => simp [hflow]

theorem sample_course (n hits : Nat) (s : Scene) :
    sample b r a n hits s = ((sampleCourse b r a n hits s).flow,
      s.performAll (sampleCourse b r a n hits s).events) := by
  induction n generalizing hits s with
  | zero => rfl
  | succ n ih =>
    simp only [sample, sampleCourse, Scene.below_snd, visit_course, Course.result]
    cases hflow : (visitCourse b r a (s.below r.count.toNat).1 hits (s.perform .draw)).flow with
    | next =>
      simp only [hflow, if_true, Course.after_flow, Course.after_hits, Course.after_events,
        List.cons_append, List.nil_append, Scene.performAll_cons, Scene.performAll_append]
      exact ih _ _
    | _ => simp [hflow]

theorem fire_course (b : RuleBook) (r : CompiledRule) (a : Actor) (s : Scene) :
    fire b r a s = ((fireCourse b r a s).flow, s.performAll (fireCourse b r a s).events) := by
  rw [fire, fireCourse]
  cases r.starts with
  | none => exact sample_course r.samples 0 s
  | some starts => exact walk_course _ 0 _

theorem tryRules_course (rs : List CompiledRule) (s : Scene) :
    tryRules b a rs s = (decide ((rulesCourse b a rs s).flow = .changed),
      s.performAll (rulesCourse b a rs s).events) := by
  induction rs generalizing s with
  | nil => rfl
  | cons r rs ih =>
    have hdrawn : s.countAttempted.chance r.chance
        = ((s.chance r.chance).1, s.performAll [.attempted, .draw]) := rfl
    have hbegun : (s.performAll [.attempted, .draw]).countFired
        = s.performAll [.attempted, .draw, .fired] := rfl
    simp only [tryRules, rulesCourse, hdrawn, hbegun, fire_course]
    by_cases hpassed : (s.chance r.chance).1 = true
    · simp only [hpassed, if_true, Course.after_flow, Course.after_events]
      obtain ⟨flow, hits, events⟩ := fireCourse b r a (s.performAll [.attempted, .draw, .fired])
      cases flow with
      | halt => rfl
      | changed => rfl
      | _ => simp [ih]
    · simp [hpassed, ih]

end Firing

theorem runCell_course (b : RuleBook) (pass : Pass) (x y : Nat) (s : Scene) :
    runCell b pass x y s = (decide ((turnCourse b pass x y s).flow = .changed),
      s.performAll (turnCourse b pass x y s).events) := by
  rw [runCell, turnCourse]
  rcases b.rules pass (s.grid.cell (s.grid.index x y)) with _ | ⟨r, rs⟩
  · rfl
  · exact Firing.tryRules_course (r :: rs) s.countVisited

end Sandfall
