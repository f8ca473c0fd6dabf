import Sandfall.Proofs.Awake
import Sandfall.Proofs.History

/-! Two worlds in lockstep. Stamps show only through which cells are stamped, and of the chunks a
pass sees only which are active. So two scenes with the same cells, draws and put-off writes go on
alike, whatever else their chunk maps remember, as long as a relation between the maps lasts that
keeps their activity equal. -/

namespace Sandfall

theorem foldl_related {σ α : Type} {K : σ → σ → Prop} {f : σ → α → σ}
    (hf : ∀ {s t}, K s t → ∀ x, K (f s x) (f t x)) (xs : List α) {s t : σ} (h : K s t) :
    K (xs.foldl f s) (xs.foldl f t) := by
  induction xs generalizing s t with
  | nil => exact h
  | cons x xs ih => exact ih (hf h x)

namespace Chunks

/-- The relation gives maps of the same size the same active chunks, whatever their stamps, and lasts
through all that a tick does to them. -/
structure Bond (K : Chunks → Chunks → Prop) : Prop where
  width : ∀ {c d}, K c d → d.width = c.width
  height : ∀ {c d}, K c d → d.height = c.height
  active : ∀ {c d}, K c d → ∀ i, d.isActive i = c.isActive i
  stamps : ∀ {c d}, K c d → ∀ s s', K { c with stamps := s } { d with stamps := s' }
  touch : ∀ {c d}, K c d → ∀ i, K (c.touch i) (d.touch i)
  wakeAll : ∀ {c d}, K c d → K c.wakeAll d.wakeAll
  beginTick : ∀ {c d}, K c d → K c.beginTick d.beginTick
  update : ∀ {c d}, K c d → ∀ g keepsAwake,
    K (c.updateActivity g keepsAwake) (d.updateActivity g keepsAwake)

theorem Bond.ofCell {K : Chunks → Chunks → Prop} (hK : Bond K) {c d : Chunks} (h : K c d)
    (x y : Nat) : d.ofCell x y = c.ofCell x y := by
  simp only [Chunks.ofCell, Chunks.indexOf, Chunks.across, hK.width h]

end Chunks

theorem Stamps.isStamped_stamp_of_le {n : Nat} (s : Stamps n) {i : Nat} (hi : n ≤ i) (j : Nat) :
    (s.stamp i).isStamped j = s.isStamped j := by
  have hmarks : s.marks.setIfInBounds i s.parity = s.marks :=
    Vector.setIfInBounds_eq_of_size_le hi
  unfold stamp
  split_ifs
  · rfl
  · rw [hmarks]
    rfl

namespace Random

/-- No shift by some places leaves a word as it is, unless it is zero. -/
theorem eq_zero_of_shift {x : UInt32} (h : x <<< 13 = x ∨ x >>> 17 = x ∨ x <<< 5 = x) : x = 0 := by
  have hlt := x.toNat_lt
  rw [← UInt32.toNat_inj, ← UInt32.toNat_inj, ← UInt32.toNat_inj, UInt32.toNat_shiftLeft,
    UInt32.toNat_shiftRight, UInt32.toNat_shiftLeft] at h
  rw [← UInt32.toNat_inj]
  simp [Nat.shiftLeft_eq, Nat.shiftRight_eq_div_pow] at h ⊢
  omega

theorem step_ne_zero {x : UInt32} (h : x ≠ 0) : step x ≠ 0 := by
  have hleft : ∀ {y : UInt32}, y ≠ 0 → y ^^^ (y <<< 13) ≠ 0 := by
    intro y hy hxor
    exact hy (eq_zero_of_shift (.inl (UInt32.xor_eq_zero_iff.mp hxor).symm))
  have hright : ∀ {y : UInt32}, y ≠ 0 → y ^^^ (y >>> 17) ≠ 0 := by
    intro y hy hxor
    exact hy (eq_zero_of_shift (.inr (.inl (UInt32.xor_eq_zero_iff.mp hxor).symm)))
  have hlast : ∀ {y : UInt32}, y ≠ 0 → y ^^^ (y <<< 5) ≠ 0 := by
    intro y hy hxor
    exact hy (eq_zero_of_shift (.inr (.inr (UInt32.xor_eq_zero_iff.mp hxor).symm)))
  exact hlast (hright (hleft h))

theorem nonzero_ne_zero (x : UInt32) : nonzero x ≠ 0 := by
  unfold nonzero
  split_ifs with h
  · decide
  · exact h

end Random

namespace Scene

/-- The scenes have the same cells, put-off writes and draws, and related chunk maps. -/
structure Matched (K : Chunks → Chunks → Prop) (s t : Scene) : Prop where
  grid : t.grid = s.grid
  pending : t.pending = s.pending
  random : t.random = s.random
  live : s.random.state ≠ 0
  chunks : K s.chunks t.chunks

/-- In the middle of a pass the same cells must be stamped, too. -/
structure Lockstep (K : Chunks → Chunks → Prop) (s t : Scene) : Prop extends Matched K s t where
  stamped : ∀ i, t.isStamped i = s.isStamped i

/-- Two results are the same, and their scenes are in lockstep. -/
structure Agree (K : Chunks → Chunks → Prop) {α : Type} (x y : α × Scene) : Prop where
  value : y.1 = x.1
  scene : x.2.Lockstep K y.2

/-- The same of a visit, which also counts its hits. -/
structure Concur (K : Chunks → Chunks → Prop) (x y : Flow × Nat × Scene) : Prop where
  flow : y.1 = x.1
  rest : Agree K x.2 y.2

section

variable {K : Chunks → Chunks → Prop} (hK : Chunks.Bond K) {s t : Scene} {b : RuleBook}
  {r : CompiledRule} {a : Actor} {c : Candidate}
include hK

namespace Matched

theorem put (h : Matched K s t) (i : Nat) (id : MaterialId) :
    Matched K (s.put i id) (t.put i id) where
  grid := by simp only [put_grid, h.grid]
  pending := h.pending
  random := h.random
  live := h.live
  chunks := by
    have htouch := hK.touch h.chunks (s.chunks.ofCell (s.grid.coords i).1 (s.grid.coords i).2)
    simp only [Scene.put, Chunks.touchCell, h.grid, hK.ofCell h.chunks]
    exact htouch

end Matched

namespace Lockstep

omit hK in
/-- Nothing is read back from the trace, the counters and the notes. -/
theorem aside (h : Lockstep K s t) (trace trace' : Option Trace) (tally tally' : Tally)
    (notes notes' : Array Note) :
    Lockstep K { s with trace := trace, tally := tally, notes := notes }
      { t with trace := trace', tally := tally', notes := notes' } :=
  ⟨⟨h.grid, h.pending, h.random, h.live, h.chunks⟩, h.stamped⟩

omit hK in
theorem wait (h : Lockstep K s t) (f : Pending → Pending) :
    Lockstep K { s with pending := f s.pending } { t with pending := f t.pending } :=
  ⟨⟨h.grid, congrArg f h.pending, h.random, h.live, h.chunks⟩, h.stamped⟩

theorem put (h : Lockstep K s t) (i : Nat) (id : MaterialId) :
    Lockstep K (s.put i id) (t.put i id) where
  toMatched := h.toMatched.put hK i id
  stamped := by
    intro j
    rw [put_isStamped, put_isStamped, h.stamped]

theorem write (h : Lockstep K s t) (commit : Commit) (i : Nat) (id : MaterialId) :
    Lockstep K (s.write commit i id) (t.write commit i id) := by
  cases commit with
  | immediate => exact h.put hK i id
  | endOfPass => exact h.wait (·.pushPass (.ofSet i id))
  | endOfTick => exact h.wait (·.pushTick (.ofSet i id))

theorem exchange (h : Lockstep K s t) (commit : Commit) (source target : Nat) :
    Lockstep K (s.exchange commit source target) (t.exchange commit source target) := by
  have hcell : t.grid.cell = s.grid.cell := congrArg Grid.cell h.grid
  simp only [Scene.exchange, hcell]
  cases commit with
  | immediate => exact (h.put hK target _).put hK source _
  | endOfPass => exact h.wait (·.pushPass (.ofExchange source target _ _))
  | endOfTick => exact h.wait (·.pushTick (.ofExchange source target _ _))

theorem stamp (h : Lockstep K s t) (i : Nat) : Lockstep K (s.stamp i) (t.stamp i) where
  grid := h.grid
  pending := h.pending
  random := h.random
  live := h.live
  chunks := hK.stamps h.chunks _ _
  stamped := by
    have hsize : t.chunks.width * t.chunks.height = s.chunks.width * s.chunks.height := by
      rw [hK.width h.chunks, hK.height h.chunks]
    intro j
    have hj : t.chunks.stamps.isStamped j = s.chunks.stamps.isStamped j := h.stamped j
    change (t.chunks.stamps.stamp i).isStamped j = (s.chunks.stamps.stamp i).isStamped j
    -- a stamp behind the last cell marks nothing in either
    rcases Nat.lt_or_ge i (s.chunks.width * s.chunks.height) with hi | hi
    · rw [Stamps.isStamped_stamp _ hi, Stamps.isStamped_stamp _ (hsize ▸ hi), hj]
    · rw [Stamps.isStamped_stamp_of_le _ hi, Stamps.isStamped_stamp_of_le _ (hsize ▸ hi), hj]

theorem move (h : Lockstep K s t) (r : CompiledRule) (source target : Nat) :
    Lockstep K (s.move r source target) (t.move r source target) := by
  have hex := h.exchange hK r.commit source target
  have hstamp : Lockstep K ((s.exchange r.commit source target).stampMove r source target)
      ((t.exchange r.commit source target).stampMove r source target) := by
    simp only [stampMove]
    split_ifs
    · exact (hex.stamp hK target).stamp hK source
    · exact hex.stamp hK source
    · exact hex.stamp hK target
    · exact hex
  exact hstamp.aside _ _ _ _ _ _

omit hK in
theorem draw {r r' : Random} (h : Lockstep K s t) (hr : r' = r) (hlive : r.state ≠ 0) :
    Lockstep K { s with random := r } { t with random := r' } :=
  ⟨⟨h.grid, h.pending, hr, hlive, h.chunks⟩, h.stamped⟩

omit hK in
theorem chance (h : Lockstep K s t) (p : Binary32) : Agree K (s.chance p) (t.chance p) where
  value := congrArg (fun r => (r.chance p).1) h.random
  scene := h.draw (congrArg (fun r => (r.chance p).2) h.random) (Random.step_ne_zero h.live)

omit hK in
theorem below (h : Lockstep K s t) (n : Nat) : Agree K (s.below n) (t.below n) where
  value := congrArg (fun r => (r.below n).1) h.random
  scene := h.draw (congrArg (fun r => (r.below n).2) h.random) (Random.step_ne_zero h.live)

omit hK in
theorem unit (h : Lockstep K s t) : Agree K s.unit t.unit where
  value := congrArg (fun r => r.unit.1) h.random
  scene := h.draw (congrArg (fun r => r.unit.2) h.random) (Random.step_ne_zero h.live)

theorem transformActor (h : Lockstep K s t) (this : Option MaterialId) (p : Binary32) (hits : Nat) :
    Concur K (Firing.transformActor r a this p hits s)
      (Firing.transformActor r a this p hits t) := by
  cases this with
  | none => exact ⟨rfl, rfl, h⟩
  | some this =>
    have hdrawn := h.chance p
    simp only [Firing.transformActor, hdrawn.value]
    split_ifs
    · exact ⟨rfl, rfl, hdrawn.scene.write hK r.commit a.index this⟩
    · exact ⟨rfl, rfl, hdrawn.scene⟩

theorem transform (h : Lockstep K s t) (this other : Option MaterialId) (p q : Binary32)
    (hits : Nat) : Concur K (Firing.transform r a c this other p q hits s)
      (Firing.transform r a c this other p q hits t) := by
  cases other with
  | none => exact h.transformActor hK this p hits
  | some into =>
    have hdrawn := h.chance q
    simp only [Firing.transform, hdrawn.value]
    split_ifs
    · exact ⟨rfl, rfl, hdrawn.scene.write hK r.commit c.index into⟩
    · exact (hdrawn.scene.write hK r.commit c.index into).transformActor hK this p (hits + 1)
    · exact hdrawn.scene.transformActor hK this p hits

theorem swap (h : Lockstep K s t) (p : Binary32) :
    Agree K (Firing.swap r a c p s) (Firing.swap r a c p t) := by
  have hdrawn := h.chance p
  simp only [Firing.swap, h.stamped, hdrawn.value]
  split_ifs
  · exact ⟨rfl, h⟩
  · exact ⟨rfl, hdrawn.scene.move hK r a.index c.index⟩
  · exact ⟨rfl, hdrawn.scene⟩

theorem densitySwap (h : Lockstep K s t) :
    Agree K (Firing.densitySwap b r a c s) (Firing.densitySwap b r a c t) := by
  have hdrawn := h.chance (Firing.sinkChance b a c)
  simp only [Firing.densitySwap, h.stamped, hdrawn.value]
  split_ifs
  · exact ⟨rfl, h⟩
  · exact ⟨rfl, h⟩
  · exact ⟨rfl, hdrawn.scene.move hK r a.index c.index⟩
  · exact ⟨rfl, hdrawn.scene⟩

theorem directionSwap (h : Lockstep K s t) (reach : Int) (allow : IdSet) :
    Agree K (Firing.directionSwap r a c reach allow s)
      (Firing.directionSwap r a c reach allow t) := by
  have hthrow : ∀ sx sy, Firing.throwTarget? a sx sy reach allow t
      = Firing.throwTarget? a sx sy reach allow s := by
    intro sx sy
    simp only [Firing.throwTarget?, h.grid, h.stamped]
  have hpull : ∀ sx sy, Firing.pullTarget? a c sx sy (-reach) allow t
      = Firing.pullTarget? a c sx sy (-reach) allow s := by
    intro sx sy
    simp only [Firing.pullTarget?, h.grid, h.stamped]
  simp only [Firing.directionSwap, Firing.throwActor, Firing.pullCandidate, hthrow, hpull]
  split_ifs
  · exact ⟨rfl, h⟩
  · cases Firing.throwTarget? a c.dx.sign c.dy.sign reach allow s with
    | none => exact ⟨rfl, h⟩
    | some i => exact ⟨rfl, h.move hK r a.index i⟩
  · cases Firing.pullTarget? a c c.dx.sign c.dy.sign (-reach) allow s with
    | none => exact ⟨rfl, h⟩
    | some i => exact ⟨rfl, h.move hK r c.index i⟩

theorem apply (h : Lockstep K s t) (o : Outcome) (hits : Nat) :
    Concur K (Firing.apply b r a c o hits s) (Firing.apply b r a c o hits t) := by
  cases o with
  | noop => exact ⟨rfl, rfl, h⟩
  | stop => exact ⟨rfl, rfl, h⟩
  | transform this other p q => exact h.transform hK this other p q hits
  | swap p =>
    have hswap := h.swap hK (r := r) (a := a) (c := c) p
    exact ⟨hswap.value, rfl, hswap.scene⟩
  | densitySwap =>
    have hswap := h.densitySwap hK (b := b) (r := r) (a := a) (c := c)
    exact ⟨hswap.value, rfl, hswap.scene⟩
  | directionSwap reach allow =>
    have hswap := h.directionSwap hK (r := r) (a := a) (c := c) reach.toInt allow
    exact ⟨hswap.value, rfl, hswap.scene⟩

theorem visit (h : Lockstep K s t) (k hits : Nat) :
    Concur K (Firing.visit b r a k hits s) (Firing.visit b r a k hits t) := by
  simp only [Firing.visit, h.grid]
  cases Firing.candidate? s.grid a (r.offset k) with
  | none => exact ⟨rfl, rfl, h⟩
  | some c =>
    simp only
    split_ifs
    · exact ⟨rfl, rfl, h⟩
    · exact h.apply hK _ hits

omit hK in
/-- A walk goes on after a visit in the same way if its rest does. -/
theorem afterVisit {f : Nat → Scene → Flow × Scene}
    (hnext : ∀ n {u v}, Lockstep K u v → Agree K (f n u) (f n v)) :
    ∀ x y : Flow × Nat × Scene, Concur K x y →
      Agree K (match x with | (.next, n, u) => f n u | (flow, _, u) => (flow, u))
        (match y with | (.next, n, u) => f n u | (flow, _, u) => (flow, u)) := by
  rintro ⟨flow, n, u⟩ ⟨flow', n', v⟩ ⟨hflow, hn, huv⟩
  obtain rfl : flow' = flow := hflow
  obtain rfl : n' = n := hn
  cases flow' with
  | next => exact hnext n' huv
  | nextRule => exact ⟨rfl, huv⟩
  | halt => exact ⟨rfl, huv⟩
  | changed => exact ⟨rfl, huv⟩

theorem walk (h : Lockstep K s t) (ks : List Nat) (hits : Nat) :
    Agree K (Firing.walk b r a ks hits s) (Firing.walk b r a ks hits t) := by
  induction ks generalizing hits s t with
  | nil => exact ⟨rfl, h⟩
  | cons k ks ih => exact afterVisit (fun n _ _ huv => ih huv n) _ _ (h.visit hK k hits)

theorem sample (h : Lockstep K s t) (n hits : Nat) :
    Agree K (Firing.sample b r a n hits s) (Firing.sample b r a n hits t) := by
  induction n generalizing hits s t with
  | zero => exact ⟨rfl, h⟩
  | succ n ih =>
    have hdrawn := h.below r.count.toNat
    simp only [Firing.sample, hdrawn.value]
    exact afterVisit (fun m _ _ huv => ih huv m) _ _ (hdrawn.scene.visit hK _ hits)

theorem fire (h : Lockstep K s t) : Agree K (Firing.fire b r a s) (Firing.fire b r a t) := by
  unfold Firing.fire
  cases r.starts with
  | none => exact h.sample hK r.samples 0
  | some starts =>
    have hdrawn := h.below (CompiledRule.groupCount starts)
    simp only [hdrawn.value]
    exact hdrawn.scene.walk hK _ 0

theorem tryRules (rs : List CompiledRule) (h : Lockstep K s t) :
    Agree K (Firing.tryRules b a rs s) (Firing.tryRules b a rs t) := by
  induction rs generalizing s t with
  | nil => exact ⟨rfl, h⟩
  | cons r rs ih =>
    have hcounted : Lockstep K s.countAttempted t.countAttempted := h.aside _ _ _ _ _ _
    have hdrawn := hcounted.chance r.chance
    simp only [Firing.tryRules, hdrawn.value]
    split_ifs
    · have hfired : Lockstep K (s.countAttempted.chance r.chance).2.countFired
          (t.countAttempted.chance r.chance).2.countFired := hdrawn.scene.aside _ _ _ _ _ _
      have hfire := hfired.fire hK (b := b) (r := r) (a := a)
      generalize Firing.fire b r a (s.countAttempted.chance r.chance).2.countFired = x at hfire
      generalize Firing.fire b r a (t.countAttempted.chance r.chance).2.countFired = y at hfire
      obtain ⟨flow, u⟩ := x
      obtain ⟨flow', v⟩ := y
      obtain ⟨hflow, huv⟩ := hfire
      obtain rfl : flow' = flow := hflow
      cases flow' with
      | next => exact ih huv
      | nextRule => exact ih huv
      | halt => exact ⟨rfl, huv⟩
      | changed => exact ⟨rfl, huv⟩
    · exact ih hdrawn.scene

theorem runCell (h : Lockstep K s t) (pass : Pass) (x y : Nat) :
    Agree K (Sandfall.runCell b pass x y s) (Sandfall.runCell b pass x y t) := by
  simp only [Sandfall.runCell, h.grid]
  cases b.rules pass (s.grid.cell (s.grid.index x y)) with
  | nil => exact ⟨rfl, h⟩
  | cons r rs => exact tryRules hK (r :: rs) (h.aside _ _ _ _ _ _)

theorem place (h : Lockstep K s t) (x y : Int) (id : MaterialId) :
    Agree K (s.place b x y id) (t.place b x y id) := by
  simp only [Scene.place, h.grid]
  split_ifs
  · exact ⟨rfl, h.put hK _ id⟩
  · exact ⟨rfl, h⟩

omit hK in
theorem isEmptyAt (h : Lockstep K s t) : t.isEmptyAt = s.isEmptyAt := by
  funext x y
  simp only [Scene.isEmptyAt, h.grid]

theorem emit (h : Lockstep K s t) (p : Post) (material : MaterialId) (chance : Binary32) :
    Lockstep K (Handler.emit b p material chance s) (Handler.emit b p material chance t) := by
  have hunit := h.unit
  have hbelow := hunit.scene.below 4
  simp only [Handler.emit, hunit.value, hbelow.value, hbelow.scene.isEmptyAt]
  split_ifs
  · exact hunit.scene
  · cases List.find? _ _ with
    | none => exact hbelow.scene
    | some place => exact (hbelow.scene.place hK _ _ material).scene

theorem perform (h : Lockstep K s t) (p : Post) (action : Action) :
    Lockstep K (Handler.perform b p s action) (Handler.perform b p t action) := by
  cases action with
  | self => exact h.aside _ _ _ _ _ _
  | get dx dy => exact h.aside _ _ _ _ _ _
  | isEmpty dx dy => exact h.aside _ _ _ _ _ _
  | set dx dy id => exact (h.place hK _ _ id).scene.aside _ _ _ _ _ _
  | random => exact h.unit.scene.aside _ _ _ _ _ _
  | below n => exact (h.below n).scene.aside _ _ _ _ _ _
  | immobile id => exact h.aside _ _ _ _ _ _
  | walk =>
    have hbelow := h.below 4
    simp only [Handler.perform, hbelow.value, hbelow.scene.isEmptyAt]
    split_ifs
    · exact ((hbelow.scene.place hK _ _ _).scene.place hK _ _ _).scene.aside _ _ _ _ _ _
    · exact hbelow.scene.aside _ _ _ _ _ _

theorem update (h : Lockstep K s t) (p : Post) (handler : Handler) :
    Lockstep K (handler.update b p s) (handler.update b p t) := by
  cases handler with
  | emitter material chance => exact h.emit hK p material chance
  | script actions => exact foldl_related (fun huv action => huv.perform hK p action) actions h

variable {hs : Handlers} {pass : Pass}

theorem visitCell (h : Lockstep K s t) (y x : Nat) :
    Lockstep K (Scan.visitCell b hs pass y s x) (Scan.visitCell b hs pass y t x) := by
  simp only [Scan.visitCell, h.grid, h.stamped]
  split_ifs
  · exact h
  · cases pass with
    | rising => exact h
    | falling =>
      cases hs.get (s.grid.cell (s.grid.index x y)) with
      | none => exact h
      | some handler => exact (h.update hK _ handler).aside _ _ _ _ _ _
  · exact (h.runCell hK pass x y).scene

theorem visitChunk (h : Lockstep K s t) (y : Nat) (right : Bool) (cx : Nat) :
    Lockstep K (Scan.visitChunk b hs pass y right s cx)
      (Scan.visitChunk b hs pass y right t cx) := by
  have hindex : t.chunks.indexOf cx (y / Chunks.edge) = s.chunks.indexOf cx (y / Chunks.edge) := by
    simp only [Chunks.indexOf, Chunks.across, hK.width h.chunks]
  simp only [Scan.visitChunk, hindex, hK.active h.chunks, h.grid]
  split_ifs
  · exact foldl_related (fun huv x => huv.visitCell hK y x) _ h
  · exact h

theorem visitRow (h : Lockstep K s t) (y : Nat) :
    Lockstep K (Scan.visitRow b hs pass s y) (Scan.visitRow b hs pass t y) := by
  have hdrawn := h.chance .half
  have hacross : (t.chance .half).2.chunks.across = (s.chance .half).2.chunks.across := by
    simp only [Chunks.across, hK.width hdrawn.scene.chunks]
  simp only [Scan.visitRow, hdrawn.value, hacross]
  exact foldl_related (fun huv cx => huv.visitChunk hK y _ cx) _ hdrawn.scene

theorem landOne (h : Lockstep K s t) (w : Write) : Lockstep K (s.apply w).2 (t.apply w).2 := by
  cases w with
  | set i id => exact h.put hK i.toNat id
  | exchange source target moving displaced =>
    simp only [Scene.apply, h.grid]
    split_ifs
    · exact (h.put hK target.toNat moving).put hK source.toNat displaced
    · exact h

theorem land (h : Lockstep K s t) (ws : List Write) : Lockstep K (s.land ws) (t.land ws) :=
  foldl_related (fun huv w => huv.landOne hK w) ws h

theorem flushPass (h : Lockstep K s t) : Lockstep K s.flushPass.2 t.flushPass.2 := by
  have hdrop : Lockstep K s.dropPass t.dropPass := h.wait fun p => { p with pass := #[] }
  rw [flushPass_snd, flushPass_snd, h.pending]
  exact hdrop.land hK _

theorem flushTick (h : Lockstep K s t) : Lockstep K s.flushTick.2 t.flushTick.2 := by
  have hdrop : Lockstep K s.dropTick t.dropTick := h.wait fun p => { p with tick := #[] }
  rw [flushTick_snd, flushTick_snd, h.pending]
  exact hdrop.land hK _

omit hK in
theorem countWritten {x y : Nat × Scene} (h : Lockstep K x.2 y.2) :
    Lockstep K (Scan.countWritten x) (Scan.countWritten y) :=
  h.aside _ _ _ _ _ _

end Lockstep

namespace Matched

/-- When a pass begins nothing is stamped, so what was stamped before no longer matters. -/
theorem beginPass (h : Matched K s t) (hsound : s.Sound) (hsound' : t.Sound) :
    Lockstep K s.beginPass t.beginPass where
  grid := h.grid
  pending := h.pending
  random := h.random
  live := h.live
  chunks := hK.stamps h.chunks _ _
  stamped := fun i =>
    (hsound'.stamps.beginPass_isStamped i).trans (hsound.stamps.beginPass_isStamped i).symm

theorem runPass (h : Matched K s t) (hsound : s.Sound) (hsound' : t.Sound) (b : RuleBook)
    (hs : Handlers) (pass : Pass) :
    Lockstep K (Scan.runPass b hs pass s) (Scan.runPass b hs pass t) := by
  have hbegun := h.beginPass hK hsound hsound'
  have hscan : Lockstep K (Scan.scan b hs pass s) (Scan.scan b hs pass t) := by
    simp only [Scan.scan, h.grid]
    exact foldl_related (fun huv y => huv.visitRow hK y) _ hbegun
  exact (hscan.flushPass hK).countWritten

theorem updateActivity (h : Matched K s t) (b : RuleBook) :
    Matched K (World.updateActivity b s) (World.updateActivity b t) where
  grid := h.grid
  pending := h.pending
  random := h.random
  live := h.live
  chunks := by
    simp only [World.updateActivity, h.grid]
    exact hK.update h.chunks s.grid b.keepsAwake

theorem tick (h : Matched K s t) (hsound : s.Sound) (hsound' : t.Sound) (b : RuleBook)
    (hs : Handlers) :
    Matched K (World.tick b hs s) (World.tick b hs t) := by
  have hbegun : Matched K (World.beginTick s) (World.beginTick t) :=
    ⟨h.grid, h.pending, h.random, h.live, hK.beginTick h.chunks⟩
  have hrising := hbegun.runPass hK hsound.beginTick hsound'.beginTick b hs .rising
  have hpasses : Lockstep K (afterPasses b hs s) (afterPasses b hs t) :=
    hrising.toMatched.runPass hK (hsound.beginTick.runPass b hs .rising)
      (hsound'.beginTick.runPass b hs .rising) b hs .falling
  have hflushed : Lockstep K (Scan.countWritten (afterPasses b hs s).flushTick)
      (Scan.countWritten (afterPasses b hs t).flushTick) :=
    (hpasses.flushTick hK).countWritten
  rw [tick_eq, tick_eq]
  exact hflushed.toMatched.updateActivity hK b

end Matched

end

end Scene

end Sandfall
