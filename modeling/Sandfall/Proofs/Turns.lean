import Sandfall.Proofs.Deeds

/-! The deeds of turns and passes. Each function of the interpreter has the list of its deeds beside
it, and does what the list says: `runCell_run` for the turn of a cell and `scan_run` for a pass. -/

namespace Sandfall

namespace Firing

def actorDeeds (r : CompiledRule) (a : Actor) (this : Option MaterialId) (p : Binary32)
    (s : Scene) : List Deed :=
  match this with
  | none => []
  | some this => if (s.chance p).1 && this ≠ a.id then [.rewrite r a.index this] else []

def transformDeeds (r : CompiledRule) (a : Actor) (c : Candidate) (this other : Option MaterialId)
    (p q : Binary32) (s : Scene) : List Deed :=
  match other with
  | none => actorDeeds r a this p s
  | some into =>
    let t := (s.chance q).2
    if (s.chance q).1 && into ≠ c.id then
      .rewrite r c.index into ::
        if c.index = a.index then [] else actorDeeds r a this p (t.write r.commit c.index into)
    else actorDeeds r a this p t

def directionDeeds (r : CompiledRule) (a : Actor) (c : Candidate) (reach : Int) (allow : IdSet)
    (s : Scene) : List Deed :=
  let sx := c.dx.sign
  let sy := c.dy.sign
  if sx = 0 ∧ sy = 0 then []
  else if 0 < reach then
    (throwTarget? a sx sy reach allow s).toList.map fun t => .move r a.index t
  else (pullTarget? a c sx sy (-reach) allow s).toList.map fun t => .move r c.index t

def applyDeeds (b : RuleBook) (r : CompiledRule) (a : Actor) (c : Candidate) (o : Outcome)
    (s : Scene) : List Deed :=
  match o with
  | .noop => []
  | .stop => []
  | .transform this other p q => transformDeeds r a c this other p q s
  | .swap p => if (swap r a c p s).1 = .changed then [.move r a.index c.index] else []
  | .densitySwap => if (densitySwap b r a c s).1 = .changed then [.move r a.index c.index] else []
  | .directionSwap reach allow => directionDeeds r a c reach.toInt allow s

def visitDeeds (b : RuleBook) (r : CompiledRule) (a : Actor) (k : Nat) (s : Scene) : List Deed :=
  match candidate? s.grid a (r.offset k) with
  | none => []
  | some c =>
    let slot := r.slot c.id
    if slot = noMatch then [] else applyDeeds b r a c (r.outcome slot) s

def walkDeeds (b : RuleBook) (r : CompiledRule) (a : Actor) : List Nat → Nat → Scene → List Deed
  | [], _, _ => []
  | k :: ks, hits, s =>
    visitDeeds b r a k s ++
      match visit b r a k hits s with
      | (.next, hits, s) => walkDeeds b r a ks hits s
      | _ => []

def sampleDeeds (b : RuleBook) (r : CompiledRule) (a : Actor) : Nat → Nat → Scene → List Deed
  | 0, _, _ => []
  | n + 1, hits, s =>
    let (k, s) := s.below r.count.toNat
    visitDeeds b r a k s ++
      match visit b r a k hits s with
      | (.next, hits, s) => sampleDeeds b r a n hits s
      | _ => []

def fireDeeds (b : RuleBook) (r : CompiledRule) (a : Actor) (s : Scene) : List Deed :=
  match r.starts with
  | some starts =>
    let (g, s) := s.below (CompiledRule.groupCount starts)
    let (first, last) := CompiledRule.group starts g
    walkDeeds b r a (List.range' first (last - first)) 0 s
  | none => sampleDeeds b r a r.samples 0 s

def rulesDeeds (b : RuleBook) (a : Actor) : List CompiledRule → Scene → List Deed
  | [], _ => []
  | r :: rs, s =>
    let (passed, s) := s.countAttempted.chance r.chance
    if passed then
      fireDeeds b r a s.countFired ++
        match fire b r a s.countFired with
        | (.halt, _) => []
        | (.changed, _) => []
        | (_, s) => rulesDeeds b a rs s
    else rulesDeeds b a rs s

end Firing

def turnDeeds (b : RuleBook) (pass : Pass) (x y : Nat) (s : Scene) : List Deed :=
  let i := s.grid.index x y
  let id := s.grid.cell i
  match b.rules pass id with
  | [] => []
  | rules => Firing.rulesDeeds b ⟨x, y, i, id⟩ rules s.countVisited

namespace Handler

def placeDeeds (b : RuleBook) (x y : Int) (id : MaterialId) (s : Scene) : List Deed :=
  if s.grid.inBounds x y && b.isKnown id then [.place (s.grid.index x.toNat y.toNat) id] else []

def emitDeeds (b : RuleBook) (p : Post) (material : MaterialId) (chance : Binary32) (s : Scene) :
    List Deed :=
  let (x, s) := s.unit
  if chance.le x then []
  else
    let (start, s) := s.below 4
    let places := [0, 1, 2, 3].map fun i =>
      ((p.x : Int) + (around (start + i)).1, (p.y : Int) + (around (start + i)).2)
    match places.find? fun (x, y) => s.isEmptyAt x y with
    | some (x, y) => placeDeeds b x y material s
    | none => []

def performDeeds (b : RuleBook) (p : Post) (s : Scene) : Action → List Deed
  | .set dx dy id => placeDeeds b (p.x + dx) (p.y + dy) id s
  | .walk =>
    let (d, s) := s.below 4
    let x := p.x + (heading d).1
    let y := p.y + (heading d).2
    if s.isEmptyAt x y then
      placeDeeds b x y p.material s ++
        placeDeeds b p.x p.y MaterialId.empty (s.place b x y p.material).2
    else []
  | _ => []

def updateDeeds (b : RuleBook) (p : Post) (s : Scene) : Handler → List Deed
  | .emitter material chance => emitDeeds b p material chance s
  | .script actions => foldDeeds (perform b p) (performDeeds b p) s actions

end Handler

namespace Scan

def visitDeeds (b : RuleBook) (hs : Handlers) (pass : Pass) (y : Nat) (s : Scene) (x : Nat) :
    List Deed :=
  let i := s.grid.index x y
  let id := s.grid.cell i
  if id = MaterialId.empty ∨ s.isStamped i then []
  else if b.isSpecial id then
    match pass, hs.get id with
    | .falling, some h => h.updateDeeds b ⟨x, y, id⟩ s
    | _, _ => []
  else turnDeeds b pass x y s

def chunkDeeds (b : RuleBook) (hs : Handlers) (pass : Pass) (y : Nat) (right : Bool) (s : Scene)
    (cx : Nat) : List Deed :=
  if s.chunks.isActive (s.chunks.indexOf cx (y / Chunks.edge)) then
    foldDeeds (visitCell b hs pass y) (visitDeeds b hs pass y) s
      (directed right (columns s.grid.width cx))
  else []

def rowDeeds (b : RuleBook) (hs : Handlers) (pass : Pass) (s : Scene) (y : Nat) : List Deed :=
  let (right, s) := s.chance .half
  foldDeeds (visitChunk b hs pass y right) (chunkDeeds b hs pass y right) s
    (directed right (List.range s.chunks.across))

/-- The deeds of a pass, from its beginning until its put-off writes land. -/
def passDeeds (b : RuleBook) (hs : Handlers) (pass : Pass) (s : Scene) : List Deed :=
  foldDeeds (visitRow b hs pass) (rowDeeds b hs pass) s.beginPass (rowOrder pass s.grid.height)

/-- A pass before its put-off writes land. -/
def scan (b : RuleBook) (hs : Handlers) (pass : Pass) (s : Scene) : Scene :=
  (rowOrder pass s.grid.height).foldl (visitRow b hs pass) s.beginPass

theorem runPass_eq (b : RuleBook) (hs : Handlers) (pass : Pass) (s : Scene) :
    runPass b hs pass s = countWritten (scan b hs pass s).flushPass := rfl

end Scan

/-! Turns. -/

/-- A part of an actor's turn: its deeds are a run, and the actor still stands if it has not
changed. -/
structure Turn (b : RuleBook) (hs : Handlers) (pass : Pass) (a : Actor) (s : Scene)
    (ds : List Deed) (flow : Flow) (t : Scene) : Prop where
  run : s.Run b hs pass ds t
  stands : flow ≠ .changed → a.Stands t

namespace Turn

variable {b : RuleBook} {hs : Handlers} {pass : Pass} {a : Actor} {s t u : Scene}
  {ds es : List Deed} {flow flow' : Flow}

theorem idle (h : a.Stands s) (flow : Flow) : Turn b hs pass a s [] flow s :=
  ⟨.nil s, fun _ => h⟩

theorem alike (h : Turn b hs pass a t ds flow u) (hst : s.Alike t) :
    Turn b hs pass a s ds flow u :=
  ⟨h.run.after hst, h.stands⟩

theorem trans (h : Turn b hs pass a s ds flow t) (h' : Turn b hs pass a t es flow' u) :
    Turn b hs pass a s (ds ++ es) flow' u :=
  ⟨h.run.trans h'.run, h'.stands⟩

theorem of_changed (h : s.Run b hs pass ds t) : Turn b hs pass a s ds .changed t :=
  ⟨h, fun hne => absurd rfl hne⟩

end Turn

/-- The candidate is a cell of the grid, found where its offset says. -/
structure Candidate.Seen (c : Candidate) (a : Actor) (s : Scene) : Prop where
  column : c.x < s.grid.width
  row : c.y < s.grid.height
  index : c.index = s.grid.index c.x c.y
  material : s.grid.cell c.index = c.id
  across : (c.x : Int) = a.x + c.dx
  down : (c.y : Int) = a.y + c.dy

namespace Candidate.Seen

variable {c : Candidate} {a : Actor} {s : Scene}

theorem inside (h : c.Seen a s) : c.index < s.grid.size := by
  rw [h.index]
  exact Grid.index_lt h.column h.row

/-- A candidate off to a side is not the acting cell. -/
theorem ne_actor (h : c.Seen a s) (ha : a.Placed s) (hside : ¬(c.dx.sign = 0 ∧ c.dy.sign = 0)) :
    c.index ≠ a.index := by
  intro heq
  rw [h.index, ha.index] at heq
  obtain ⟨hx, hy⟩ := Grid.index_inj h.column ha.column heq
  have hac := h.across
  have hdo := h.down
  apply hside
  rw [Int.sign_eq_zero_iff_zero, Int.sign_eq_zero_iff_zero]
  omega

end Candidate.Seen

namespace Firing

variable {b : RuleBook} {hs : Handlers} {pass : Pass} {a : Actor} {s : Scene} {r : CompiledRule}
  {c : Candidate} {hits : Nat}

theorem candidate?_eq_some {o : Int × Int} (h : candidate? s.grid a o = some c) : c.Seen a s := by
  simp only [candidate?] at h
  split_ifs at h with hin
  obtain ⟨hx, hx', hy, hy'⟩ := Grid.inBounds_iff.mp hin
  cases h
  exact ⟨(Int.toNat_lt hx).mpr hx', (Int.toNat_lt hy).mpr hy', rfl, rfl, Int.toNat_of_nonneg hx,
    Int.toNat_of_nonneg hy⟩

theorem transformActor_turn (h : a.Stands s) (hr : r ∈ b.rules pass a.id) {id : MaterialId}
    {this other : Option MaterialId} {p q : Binary32}
    (ho : r.Sends id (.transform this other p q)) :
    Turn b hs pass a s (actorDeeds r a this p s) (transformActor r a this p hits s).1
      (transformActor r a this p hits s).2.2 := by
  cases this with
  | none => exact .idle h _
  | some this =>
    have hst : s.Alike (s.chance p).2 := s.alike_chance p
    simp only [transformActor, actorDeeds]
    split_ifs with hp
    · refine .alike (.of_changed ?_) hst
      exact .of_rule (h.alike hst) hr (.actor ho)
    · exact .alike (.idle (h.alike hst) _) hst

theorem transform_turn (h : a.Stands s) (hc : c.Seen a s) (hr : r ∈ b.rules pass a.id)
    {this other : Option MaterialId} {p q : Binary32}
    (ho : r.Sends c.id (.transform this other p q)) :
    Turn b hs pass a s (transformDeeds r a c this other p q s)
      (transform r a c this other p q hits s).1 (transform r a c this other p q hits s).2.2 := by
  cases other with
  | none => exact transformActor_turn h hr ho
  | some into =>
    have hst : s.Alike (s.chance q).2 := s.alike_chance q
    have ht := h.alike hst
    have hdeed : Deed.ByRule (s.chance q).2 a r (.rewrite r c.index into) :=
      .candidate hc.inside (by rw [hst.grid, hc.material]; exact ho)
    have hrun : (s.chance q).2.Run b hs pass [.rewrite r c.index into]
        ((s.chance q).2.write r.commit c.index into) := .of_rule ht hr hdeed
    simp only [transform, transformDeeds]
    split_ifs with hq hown
    · -- the candidate is the acting cell, so nothing follows
      exact .alike (.of_changed hrun) hst
    · have hrest := ht.write r.commit hown into
      have hfirst : Turn b hs pass a (s.chance q).2 [.rewrite r c.index into] .next
          ((s.chance q).2.write r.commit c.index into) := ⟨hrun, fun _ => hrest⟩
      exact .alike (hfirst.trans (transformActor_turn hrest hr ho)) hst
    · exact .alike (transformActor_turn ht hr ho) hst

/-- A swap exchanges the actor with a free candidate or does nothing but draw. -/
theorem swap_cases (r : CompiledRule) (a : Actor) (c : Candidate) (p : Binary32) (s : Scene) :
    ∃ t, s.Alike t ∧ (swap r a c p s = (.next, t) ∨
      swap r a c p s = (.changed, t.move r a.index c.index) ∧ s.isStamped c.index = false) := by
  simp only [swap]
  split_ifs with hno hp
  · exact ⟨s, s.alike_refl, .inl rfl⟩
  · push Not at hno
    exact ⟨_, s.alike_chance p, .inr ⟨rfl, by simpa using hno.2⟩⟩
  · exact ⟨_, s.alike_chance p, .inl rfl⟩

theorem densitySwap_cases (b : RuleBook) (r : CompiledRule) (a : Actor) (c : Candidate)
    (s : Scene) :
    ∃ t, s.Alike t ∧ (densitySwap b r a c s = (.next, t) ∨
      densitySwap b r a c s = (.changed, t.move r a.index c.index) ∧
        s.isStamped c.index = false) := by
  simp only [densitySwap]
  split_ifs with hno hz hp
  · exact ⟨s, s.alike_refl, .inl rfl⟩
  · exact ⟨s, s.alike_refl, .inl rfl⟩
  · exact ⟨_, s.alike_chance _, .inr ⟨rfl, by simpa using hno⟩⟩
  · exact ⟨_, s.alike_chance _, .inl rfl⟩

theorem exchange_turn (h : a.Stands s) (hc : c.Seen a s) (hr : r ∈ b.rules pass a.id) {o : Outcome}
    (ho : r.Sends c.id o) (hswap : o = .densitySwap ∨ ∃ p, o = .swap p) {x : Flow × Scene}
    (hx : ∃ t, s.Alike t ∧ (x = (.next, t) ∨
      x = (.changed, t.move r a.index c.index) ∧ s.isStamped c.index = false)) :
    Turn b hs pass a s (if x.1 = .changed then [.move r a.index c.index] else []) x.1 x.2 := by
  obtain ⟨t, hst, rfl | ⟨rfl, hfree⟩⟩ := hx
  · rw [if_neg (by simp)]
    exact .alike (.idle (h.alike hst) _) hst
  · rw [if_pos rfl]
    refine .alike (.of_changed (.of_rule (h.alike hst) hr (.swap ?_ ?_ ?_ hswap))) hst
    · rw [hst.grid]
      exact hc.inside
    · rw [hst.isStamped]
      exact hfree
    · rw [hst.grid, hc.material]
      exact ho

theorem throwTarget?_eq_some {sx sy reach : Int} {allow : IdSet} {t : Nat}
    (h : throwTarget? a sx sy reach allow s = some t) :
    t < s.grid.size ∧ allow.contains (s.grid.cell t) ∧ s.isStamped t = false := by
  simp only [throwTarget?] at h
  split_ifs at h with hin hfree
  cases h
  rw [Bool.and_eq_true, Bool.not_eq_true'] at hfree
  exact ⟨Grid.index_lt_of_inBounds hin, hfree⟩

theorem pullTarget?_eq_some {sx sy back : Int} {allow : IdSet} {t : Nat}
    (h : pullTarget? a c sx sy back allow s = some t) :
    t < s.grid.size ∧ t ≠ a.index ∧ t ≠ c.index ∧ s.isStamped c.index = false ∧
      s.isStamped t = false ∧ allow.contains (s.grid.cell t) := by
  simp only [pullTarget?] at h
  split_ifs at h with hin hno
  cases h
  push Not at hno
  obtain ⟨hta, htc, hc, ht, hallow⟩ := hno
  refine ⟨Grid.index_lt_of_inBounds hin, hta, htc, ?_, ?_, ?_⟩
  · simpa using hc
  · simpa using ht
  · simpa using hallow

theorem directionSwap_turn (h : a.Stands s) (hc : c.Seen a s) (hr : r ∈ b.rules pass a.id)
    {reach : Int8} {allow : IdSet} (ho : r.Sends c.id (.directionSwap reach allow)) :
    Turn b hs pass a s (directionDeeds r a c reach.toInt allow s)
      (directionSwap r a c reach.toInt allow s).1 (directionSwap r a c reach.toInt allow s).2 := by
  simp only [directionSwap, directionDeeds]
  split_ifs with hside hpos
  · exact .idle h _
  · rw [throwActor]
    cases hto : throwTarget? a c.dx.sign c.dy.sign reach.toInt allow s with
    | none => exact .idle h _
    | some t =>
      obtain ⟨ht, hallow, hfree⟩ := throwTarget?_eq_some hto
      exact .of_changed (.of_rule h hr (.throw ht hfree ho hpos hallow))
  · rw [pullCandidate]
    cases hto : pullTarget? a c c.dx.sign c.dy.sign (-reach.toInt) allow s with
    | none => exact .idle h _
    | some t =>
      obtain ⟨ht, hta, htc, hcfree, htfree, hallow⟩ := pullTarget?_eq_some hto
      have hca := hc.ne_actor h.placed hside
      have hneg : reach.toInt ≤ 0 := Int.not_lt.mp hpos
      refine ⟨.of_rule h hr (.pull hc.inside ht hcfree htfree hca hta htc ?_ hneg hallow), ?_⟩
      · rw [hc.material]
        exact ho
      · -- only the pulled candidate moves, so the actor still stands
        intro _
        exact h.move r hca hta

theorem apply_turn (h : a.Stands s) (hc : c.Seen a s) (hr : r ∈ b.rules pass a.id) {o : Outcome}
    (ho : r.Sends c.id o) :
    Turn b hs pass a s (applyDeeds b r a c o s) (apply b r a c o hits s).1
      (apply b r a c o hits s).2.2 := by
  cases o with
  | noop => exact .idle h _
  | stop => exact .idle h _
  | transform this other p q => exact transform_turn h hc hr ho
  | swap p => exact exchange_turn h hc hr ho (.inr ⟨p, rfl⟩) (swap_cases r a c p s)
  | densitySwap => exact exchange_turn h hc hr ho (.inl rfl) (densitySwap_cases b r a c s)
  | directionSwap reach allow => exact directionSwap_turn h hc hr ho

theorem visit_turn (hs : Handlers) (h : a.Stands s) (hr : r ∈ b.rules pass a.id) (k hits : Nat) :
    Turn b hs pass a s (visitDeeds b r a k s) (visit b r a k hits s).1
      (visit b r a k hits s).2.2 := by
  simp only [visit, visitDeeds]
  cases hc : candidate? s.grid a (r.offset k) with
  | none => exact .idle h _
  | some c =>
    by_cases hslot : r.slot c.id = noMatch
    · simp only [hslot, if_true]
      exact .idle h _
    · simp only [hslot, if_false]
      exact apply_turn h (candidate?_eq_some hc) hr ⟨hslot, rfl⟩

theorem walk_turn (hr : r ∈ b.rules pass a.id) :
    ∀ (ks : List Nat) (hits : Nat) (s : Scene), a.Stands s →
      Turn b hs pass a s (walkDeeds b r a ks hits s) (walk b r a ks hits s).1
        (walk b r a ks hits s).2
  | [], _, _, h => .idle h _
  | k :: ks, hits, s, h => by
    have hv := visit_turn hs h hr k hits
    rw [walk, walkDeeds]
    rcases hvisit : visit b r a k hits s with ⟨flow, hits', t⟩
    rw [hvisit] at hv
    cases flow with
    | next => exact hv.trans (walk_turn hr ks hits' t (hv.stands (by simp)))
    | nextRule => rwa [List.append_nil]
    | halt => rwa [List.append_nil]
    | changed => rwa [List.append_nil]

theorem sample_turn (hr : r ∈ b.rules pass a.id) :
    ∀ (n hits : Nat) (s : Scene), a.Stands s →
      Turn b hs pass a s (sampleDeeds b r a n hits s) (sample b r a n hits s).1
        (sample b r a n hits s).2
  | 0, _, _, h => .idle h _
  | n + 1, hits, s, h => by
    have hst : s.Alike (s.below r.count.toNat).2 := s.alike_below _
    have hv := visit_turn hs (h.alike hst) hr (s.below r.count.toNat).1 hits
    simp only [sample, sampleDeeds]
    refine .alike ?_ hst
    rcases hvisit : visit b r a (s.below r.count.toNat).1 hits (s.below r.count.toNat).2
      with ⟨flow, hits', t⟩
    rw [hvisit] at hv
    cases flow with
    | next => exact hv.trans (sample_turn hr n hits' t (hv.stands (by simp)))
    | nextRule => rwa [List.append_nil]
    | halt => rwa [List.append_nil]
    | changed => rwa [List.append_nil]

theorem fire_turn (hs : Handlers) (h : a.Stands s) (hr : r ∈ b.rules pass a.id) :
    Turn b hs pass a s (fireDeeds b r a s) (fire b r a s).1 (fire b r a s).2 := by
  rw [fire, fireDeeds]
  cases r.starts with
  | none => exact sample_turn hr _ _ _ h
  | some starts =>
    have hst := s.alike_below (CompiledRule.groupCount starts)
    exact .alike (walk_turn hr _ _ _ (h.alike hst)) hst

theorem tryRules_run :
    ∀ (rs : List CompiledRule) (s : Scene), a.Stands s → (∀ r ∈ rs, r ∈ b.rules pass a.id) →
      s.Run b hs pass (rulesDeeds b a rs s) (tryRules b a rs s).2
  | [], s, _, _ => .nil s
  | r :: rs, s, h, hrs => by
    obtain ⟨hr, hrs⟩ := List.forall_mem_cons.mp hrs
    have hst : s.Alike (s.countAttempted.chance r.chance).2 :=
      s.alike_countAttempted.trans (Scene.alike_chance _ _)
    have ht := h.alike hst
    refine .after hst ?_
    by_cases hp : (s.countAttempted.chance r.chance).1 = true
    · simp only [tryRules, rulesDeeds, hp, if_true]
      have htu := (s.countAttempted.chance r.chance).2.alike_countFired
      have hfire := (fire_turn hs (ht.alike htu) hr).alike htu
      rcases hf : fire b r a (s.countAttempted.chance r.chance).2.countFired with ⟨flow, t⟩
      rw [hf] at hfire
      cases flow with
      | next => exact hfire.run.trans (tryRules_run rs t (hfire.stands (by simp)) hrs)
      | nextRule => exact hfire.run.trans (tryRules_run rs t (hfire.stands (by simp)) hrs)
      | halt => simpa only [List.append_nil] using hfire.run
      | changed => simpa only [List.append_nil] using hfire.run
    · simp only [tryRules, rulesDeeds, hp]
      exact tryRules_run rs _ ht hrs

end Firing

theorem runCell_run {b : RuleBook} {hs : Handlers} {pass : Pass} {x y : Nat} {s : Scene}
    (hx : x < s.grid.width) (hy : y < s.grid.height)
    (hfree : s.isStamped (s.grid.index x y) = false) :
    s.Run b hs pass (turnDeeds b pass x y s) (runCell b pass x y s).2 := by
  have ha : Actor.Stands ⟨x, y, s.grid.index x y, s.grid.cell (s.grid.index x y)⟩ s :=
    ⟨hx, hy, rfl, rfl, hfree⟩
  simp only [runCell, turnDeeds]
  rcases hrs : b.rules pass (s.grid.cell (s.grid.index x y)) with _ | ⟨r, rs⟩
  · exact .nil s
  · have hst := s.alike_countVisited
    refine .after hst (Firing.tryRules_run _ _ (ha.alike hst) ?_)
    intro r' hr'
    rw [hrs]
    exact hr'

namespace Handler

variable {b : RuleBook} {hs : Handlers} {s : Scene} {m : MaterialId} {h : Handler}

theorem place_run (hm : b.isSpecial m) (hh : hs.get m = some h) (x y : Int) (id : MaterialId)
    (hmay : s.grid.inBounds x y → h.MayPlace s (s.grid.index x.toNat y.toNat) id) :
    s.Run b hs .falling (placeDeeds b x y id s) (s.place b x y id).2 := by
  simp only [Scene.place, placeDeeds]
  split_ifs with hin
  · rw [Bool.and_eq_true] at hin
    exact .of_place rfl hm hh (Grid.index_lt_of_inBounds hin.1) hin.2 (hmay hin.1)
  · exact .nil s

theorem emit_run {material : MaterialId} {chance : Binary32} (hm : b.isSpecial m)
    (hh : hs.get m = some (.emitter material chance)) (p : Post) :
    s.Run b hs .falling (emitDeeds b p material chance s) (emit b p material chance s) := by
  have hst := s.alike_unit
  have htu := Scene.alike_below s.unit.2 4
  simp only [emit, emitDeeds]
  split_ifs with hp
  · exact .of_alike hst
  · refine .after (hst.trans htu) ?_
    generalize hfind : List.find? _ _ = found
    cases found with
    | none => exact .nil _
    | some place =>
      refine place_run hm hh _ _ material fun hin => ⟨rfl, ?_⟩
      have hempty := List.find?_some hfind
      simpa [Scene.isEmptyAt, Grid.get, hin] using hempty

theorem perform_run {actions : List Action} (hm : b.isSpecial m)
    (hh : hs.get m = some (.script actions)) (p : Post) (action : Action) :
    s.Run b hs .falling (performDeeds b p s action) (perform b p s action) := by
  have hplace : ∀ (t : Scene) (x y : Int) (id : MaterialId),
      t.Run b hs .falling (placeDeeds b x y id t) (t.place b x y id).2 :=
    fun t x y id => place_run hm hh x y id fun _ => trivial
  cases action with
  | self => exact .of_alike (s.alike_note _)
  | get dx dy => exact .of_alike (s.alike_note _)
  | isEmpty dx dy => exact .of_alike (s.alike_note _)
  | set dx dy id => exact (hplace s _ _ id).quiet (Scene.alike_note _ _)
  | random => exact .of_alike (s.alike_unit.trans (Scene.alike_note _ _))
  | below n => exact .of_alike ((s.alike_below n).trans (Scene.alike_note _ _))
  | immobile id => exact .of_alike (s.alike_note _)
  | walk =>
    simp only [perform, performDeeds]
    refine .after (s.alike_below 4) ?_
    split_ifs with hempty
    · exact ((hplace _ _ _ _).trans (hplace _ _ _ _)).quiet (Scene.alike_note _ _)
    · exact .of_alike (Scene.alike_note _ _)

theorem update_run (hm : b.isSpecial m) (hh : hs.get m = some h) (p : Post) :
    s.Run b hs .falling (h.updateDeeds b p s) (h.update b p s) := by
  cases h with
  | emitter material chance => exact emit_run hm hh p
  | script actions => exact .foldl fun t _ action _ => perform_run hm hh p action

end Handler

namespace Scan

variable {b : RuleBook} {hs : Handlers} {pass : Pass} {s : Scene}

theorem visitCell_run {x y : Nat} (hx : x < s.grid.width) (hy : y < s.grid.height) :
    s.Run b hs pass (visitDeeds b hs pass y s x) (visitCell b hs pass y s x) := by
  simp only [visitCell, visitDeeds]
  split_ifs with hskip hspecial
  · exact .nil s
  · cases pass with
    | rising => exact .nil s
    | falling =>
      cases hh : hs.get (s.grid.cell (s.grid.index x y)) with
      | none => exact .nil s
      | some h => exact (Handler.update_run hspecial hh _).quiet (Scene.alike_countHandled _)
  · push Not at hskip
    exact runCell_run hx hy (by simpa using hskip.2)

theorem mem_directed {α : Type} {forward : Bool} {xs : List α} {x : α} :
    x ∈ directed forward xs ↔ x ∈ xs := by
  cases forward <;> simp [directed]

theorem visitChunk_run {y cx : Nat} {right : Bool} (hy : y < s.grid.height) :
    s.Run b hs pass (chunkDeeds b hs pass y right s cx) (visitChunk b hs pass y right s cx) := by
  simp only [visitChunk, chunkDeeds]
  split_ifs with hactive
  · apply Scene.Run.foldl
    intro t hst x hx
    rw [mem_directed, columns, List.mem_range'_1] at hx
    apply visitCell_run
    · rw [hst.1]
      omega
    · rwa [hst.2]
  · exact .nil s

theorem visitRow_run {y : Nat} (hy : y < s.grid.height) :
    s.Run b hs pass (rowDeeds b hs pass s y) (visitRow b hs pass s y) := by
  simp only [visitRow, rowDeeds]
  refine .after (s.alike_chance .half) (.foldl fun t hst cx _ => ?_)
  apply visitChunk_run
  rwa [hst.2]

theorem scan_run (b : RuleBook) (hs : Handlers) (pass : Pass) (s : Scene) :
    s.beginPass.Run b hs pass (passDeeds b hs pass s) (scan b hs pass s) := by
  apply Scene.Run.foldl
  intro t hst y hy
  rw [rowOrder, mem_directed, List.mem_range] at hy
  apply visitRow_run
  rwa [hst.2]

end Scan

end Sandfall
