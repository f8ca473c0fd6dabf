import Sandfall.Proofs.Sound

/-! What a pass counts. Rules count the cells they visit and how often they are tried and fire, and
nothing else; a handler counts nothing, and each of its calls is counted by the visit of its cell.
And what begins with a pass and is kept by every draw and every visit holds at its end. -/

namespace Sandfall

namespace Scene

@[simp] theorem put_tally (s : Scene) (i : Nat) (id : MaterialId) :
    (s.put i id).tally = s.tally := rfl

@[simp] theorem stamp_tally (s : Scene) (i : Nat) : (s.stamp i).tally = s.tally := rfl

@[simp] theorem chance_tally (s : Scene) (p : Binary32) : (s.chance p).2.tally = s.tally := rfl

@[simp] theorem below_tally (s : Scene) (n : Nat) : (s.below n).2.tally = s.tally := rfl

@[simp] theorem unit_tally (s : Scene) : s.unit.2.tally = s.tally := rfl

@[simp] theorem note_tally (s : Scene) (n : Note) : (s.note n).tally = s.tally := rfl

@[simp] theorem write_tally (s : Scene) (commit : Commit) (i : Nat) (id : MaterialId) :
    (s.write commit i id).tally = s.tally := by
  cases commit <;> rfl

@[simp] theorem move_tally (s : Scene) (r : CompiledRule) (source target : Nat) :
    (s.move r source target).tally = s.tally := by
  have hexchange : (s.exchange r.commit source target).tally = s.tally := by
    simp only [exchange]
    cases r.commit <;> rfl
  simp only [move, stampMove, record]
  split_ifs <;> exact hexchange

@[simp] theorem place_tally (s : Scene) (b : RuleBook) (x y : Int) (id : MaterialId) :
    (s.place b x y id).2.tally = s.tally := by
  unfold place
  split_ifs <;> rfl

theorem apply_tally (s : Scene) (w : Write) : (s.apply w).2.tally = s.tally := by
  cases w with
  | set i id => rfl
  | exchange source target moving displaced =>
    simp only [apply]
    split_ifs <;> rfl

theorem land_tally (ws : List Write) (s : Scene) : (s.land ws).tally = s.tally := by
  induction ws generalizing s with
  | nil => rfl
  | cons w ws ih => rw [land_cons, ih, apply_tally]

theorem flushPass_tally (s : Scene) : s.flushPass.2.tally = s.tally := by
  rw [flushPass_snd, land_tally]
  rfl

theorem flushTick_tally (s : Scene) : s.flushTick.2.tally = s.tally := by
  rw [flushTick_snd, land_tally]
  rfl

end Scene

namespace Firing

variable {b : RuleBook} {r : CompiledRule} {a : Actor} {c : Candidate}

theorem transformActor_tally (this : Option MaterialId) (p : Binary32) (hits : Nat) (s : Scene) :
    (transformActor r a this p hits s).2.2.tally = s.tally := by
  cases this with
  | none => rfl
  | some this =>
    simp only [transformActor]
    split_ifs <;> simp

theorem transform_tally (this other : Option MaterialId) (p q : Binary32) (hits : Nat) (s : Scene) :
    (transform r a c this other p q hits s).2.2.tally = s.tally := by
  cases other with
  | none => exact transformActor_tally this p hits s
  | some into =>
    simp only [transform]
    split_ifs <;> simp [transformActor_tally]

theorem swap_tally (p : Binary32) (s : Scene) : (swap r a c p s).2.tally = s.tally := by
  simp only [swap]
  split_ifs <;> simp

theorem densitySwap_tally (s : Scene) : (densitySwap b r a c s).2.tally = s.tally := by
  simp only [densitySwap]
  split_ifs <;> simp

theorem directionSwap_tally (reach : Int) (allow : IdSet) (s : Scene) :
    (directionSwap r a c reach allow s).2.tally = s.tally := by
  simp only [directionSwap, throwActor, pullCandidate]
  split_ifs
  · rfl
  · cases throwTarget? a c.dx.sign c.dy.sign reach allow s <;> simp
  · cases pullTarget? a c c.dx.sign c.dy.sign (-reach) allow s <;> simp

theorem apply_tally (o : Outcome) (hits : Nat) (s : Scene) :
    (apply b r a c o hits s).2.2.tally = s.tally := by
  cases o with
  | noop => rfl
  | stop => rfl
  | transform this other p q => exact transform_tally this other p q hits s
  | swap p => exact swap_tally p s
  | densitySwap => exact densitySwap_tally s
  | directionSwap reach allow => exact directionSwap_tally reach.toInt allow s

theorem visit_tally (k hits : Nat) (s : Scene) : (visit b r a k hits s).2.2.tally = s.tally := by
  unfold visit
  cases candidate? s.grid a (r.offset k) with
  | none => rfl
  | some c =>
    simp only
    split_ifs
    · rfl
    · exact apply_tally _ hits s

theorem walk_tally (ks : List Nat) (hits : Nat) (s : Scene) :
    (walk b r a ks hits s).2.tally = s.tally := by
  induction ks generalizing hits s with
  | nil => rfl
  | cons k ks ih =>
    have hvisit := visit_tally (b := b) (r := r) (a := a) k hits s
    rw [walk]
    generalize visit b r a k hits s = v at hvisit ⊢
    obtain ⟨flow, hits', t⟩ := v
    cases flow with
    | next => exact (ih hits' t).trans hvisit
    | _ => exact hvisit

theorem sample_tally (n hits : Nat) (s : Scene) : (sample b r a n hits s).2.tally = s.tally := by
  induction n generalizing hits s with
  | zero => rfl
  | succ n ih =>
    have hvisit := visit_tally (b := b) (r := r) (a := a) (s.below r.count.toNat).1 hits
      (s.below r.count.toNat).2
    simp only [sample]
    generalize visit b r a (s.below r.count.toNat).1 hits (s.below r.count.toNat).2 = v
      at hvisit ⊢
    obtain ⟨flow, hits', t⟩ := v
    cases flow with
    | next => exact (ih hits' t).trans hvisit
    | _ => exact hvisit

theorem fire_tally (s : Scene) : (fire b r a s).2.tally = s.tally := by
  rw [fire]
  cases r.starts with
  | none => exact sample_tally r.samples 0 s
  | some starts => exact walk_tally _ 0 _

/-- Of some rules the first is tried, and only rules that are tried fire. -/
theorem tryRules_tally (rs : List CompiledRule) (s : Scene) :
    ∃ attempted fired, fired ≤ attempted ∧ (rs ≠ [] → 0 < attempted) ∧
      (tryRules b a rs s).2.tally = { s.tally with
        attempted := s.tally.attempted + attempted
        fired := s.tally.fired + fired } := by
  induction rs generalizing s with
  | nil => exact ⟨0, 0, le_rfl, nofun, rfl⟩
  | cons r rs ih =>
    simp only [tryRules]
    split_ifs
    · have hfire := fire_tally (b := b) (r := r) (a := a)
        (s.countAttempted.chance r.chance).2.countFired
      generalize fire b r a (s.countAttempted.chance r.chance).2.countFired = v at hfire ⊢
      obtain ⟨flow, t⟩ := v
      replace hfire : t.tally = { s.tally with
        attempted := s.tally.attempted + 1
        fired := s.tally.fired + 1 } := hfire
      cases flow with
      | halt => exact ⟨1, 1, le_rfl, fun _ => Nat.one_pos, hfire⟩
      | changed => exact ⟨1, 1, le_rfl, fun _ => Nat.one_pos, hfire⟩
      | _ =>
        obtain ⟨attempted, fired, hle, -, hrest⟩ := ih t
        refine ⟨1 + attempted, 1 + fired, by omega, fun _ => by omega, ?_⟩
        rw [hrest, hfire, Nat.add_assoc, Nat.add_assoc]
    · obtain ⟨attempted, fired, hle, -, hrest⟩ := ih (s.countAttempted.chance r.chance).2
      refine ⟨1 + attempted, fired, by omega, fun _ => by omega, ?_⟩
      rw [hrest, ← Nat.add_assoc]
      rfl

end Firing

/-- The turn of a cell counts neither handlers nor written cells, and when it visits the cell it
tries a rule. -/
theorem runCell_tally (b : RuleBook) (pass : Pass) (x y : Nat) (s : Scene) :
    ∃ visited attempted fired, visited ≤ attempted ∧ fired ≤ attempted ∧
      (runCell b pass x y s).2.tally = { s.tally with
        visited := s.tally.visited + visited
        attempted := s.tally.attempted + attempted
        fired := s.tally.fired + fired } := by
  simp only [runCell]
  rcases b.rules pass (s.grid.cell (s.grid.index x y)) with _ | ⟨r, rs⟩
  · exact ⟨0, 0, 0, le_rfl, le_rfl, rfl⟩
  · obtain ⟨attempted, fired, hfired, htried, htally⟩ := Firing.tryRules_tally (b := b)
      (a := ⟨x, y, s.grid.index x y, s.grid.cell (s.grid.index x y)⟩) (r :: rs) s.countVisited
    exact ⟨1, attempted, fired, htried (List.cons_ne_nil r rs), hfired, htally⟩

namespace Handler

variable {b : RuleBook} {p : Post}

theorem emit_tally (material : MaterialId) (chance : Binary32) (s : Scene) :
    (emit b p material chance s).tally = s.tally := by
  simp only [emit]
  split_ifs
  · rfl
  · split <;> simp

theorem perform_tally (s : Scene) (action : Action) : (perform b p s action).tally = s.tally := by
  cases action with
  | walk =>
    simp only [perform]
    split_ifs <;> simp
  | _ => simp [perform]

theorem update_tally (h : Handler) (s : Scene) : (h.update b p s).tally = s.tally := by
  cases h with
  | emitter material chance => exact emit_tally material chance s
  | script actions =>
    simp only [update]
    induction actions generalizing s with
    | nil => rfl
    | cons action actions ih => exact (ih (perform b p s action)).trans (perform_tally s action)

end Handler

namespace Scan

variable {b : RuleBook} {hs : Handlers} {pass : Pass} {I : Scene → Prop} {s : Scene}

/-- The property lasts through every draw and every visit of a cell. -/
structure Keeps (b : RuleBook) (hs : Handlers) (pass : Pass) (I : Scene → Prop) : Prop where
  draw : ∀ {s} p, I s → I (s.chance p).2
  visit : ∀ {s x y}, x < s.grid.width → y < s.grid.height → I s → I (visitCell b hs pass y s x)

theorem foldl_keeps {α : Type} {step : Scene → α → Scene} {xs : List α}
    (h : ∀ t, s.SameSize t → I t → ∀ x ∈ xs, t.SameSize (step t x) ∧ I (step t x)) (hI : I s) :
    I (xs.foldl step s) := by
  induction xs generalizing s with
  | nil => exact hI
  | cons x xs ih =>
    obtain ⟨hsize, hx⟩ := h s ⟨rfl, rfl⟩ hI x (List.mem_cons_self ..)
    refine ih (fun t ht hIt y hy => ?_) hx
    exact h t ⟨ht.1.trans hsize.1, ht.2.trans hsize.2⟩ hIt y (List.mem_cons_of_mem _ hy)

theorem Keeps.visitChunk (h : Keeps b hs pass I) {y : Nat} (hy : y < s.grid.height) (right : Bool)
    (cx : Nat) (hI : I s) : I (visitChunk b hs pass y right s cx) := by
  simp only [Scan.visitChunk]
  split_ifs
  · refine foldl_keeps (fun t ht hIt x hx => ?_) hI
    rw [mem_directed, columns, List.mem_range'_1] at hx
    have hxt : x < t.grid.width := by
      rw [ht.1]
      omega
    have hyt : y < t.grid.height := by rwa [ht.2]
    exact ⟨(visitCell_run hxt hyt).sameSize, h.visit hxt hyt hIt⟩
  · exact hI

theorem Keeps.visitRow (h : Keeps b hs pass I) {y : Nat} (hy : y < s.grid.height) (hI : I s) :
    I (visitRow b hs pass s y) := by
  refine foldl_keeps (fun t ht hIt cx _ => ?_) (h.draw .half hI)
  have hyt : y < t.grid.height := by rwa [ht.2]
  exact ⟨(visitChunk_run hyt).sameSize, h.visitChunk hyt _ cx hIt⟩

theorem Keeps.scan (h : Keeps b hs pass I) (hI : I s.beginPass) : I (scan b hs pass s) := by
  refine foldl_keeps (fun t ht hIt y hy => ?_) hI
  have hyt : y < t.grid.height := by
    rw [rowOrder, mem_directed, List.mem_range] at hy
    rwa [ht.2]
  exact ⟨(visitRow_run hyt).sameSize, h.visitRow hyt hIt⟩

end Scan

end Sandfall
