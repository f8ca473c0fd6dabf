import Sandfall.Proofs.Book
import Sandfall.Proofs.Courses
import Sandfall.Proofs.Sound

/-! The acting cell in its own turn. Until the turn reports a change, nothing has been done to the
cell: it holds what it held, is stamped only if it was, and no waiting write names it. If the turn
reports a change, one deed has written or exchanged the cell, and with this deed the turn ends. -/

namespace Sandfall

def Deed.Involves (i : Nat) : Deed → Prop
  | .place j _ => j = i
  | .rewrite _ j _ => j = i
  | .move _ source target => source = i ∨ target = i

/-- The waiting write names the cell by its word. -/
def Write.Involves (i : Nat) : Write → Prop
  | .set j _ => j = UInt32.ofNat i
  | .exchange source target _ _ => source = UInt32.ofNat i ∨ target = UInt32.ofNat i

namespace Event

/-- The event is a deed that writes or exchanges the cell. -/
def Touches (i : Nat) : Event → Prop
  | .deed d => d.Involves i
  | _ => False

/-- The event names cells of the grid only. -/
def Within (s : Scene) : Event → Prop
  | .deed d => s.Names d
  | _ => True

theorem Within.of_sameSize {s t : Scene} {e : Event} (h : e.Within t) (hsize : s.SameSize t) :
    e.Within s := by
  cases e with
  | deed d => exact hsize.names h
  | _ => trivial

def IsOutcome : Event → Prop
  | .outcome .. => True
  | _ => False

end Event

namespace Scene

/-- From one scene to the other nothing has been done to the cell, now or for later. Cells are told
apart in the queues only as far as words number them. -/
structure Untouched (i : Nat) (s t : Scene) : Prop where
  size : s.SameSize t
  cell : t.grid.cell i = s.grid.cell i
  stamp : t.isStamped i = s.isStamped i
  pass : ∃ ws, t.pending.pass.toList = s.pending.pass.toList ++ ws ∧
    (s.grid.size ≤ UInt32.size → ∀ w ∈ ws, ¬ w.Involves i)
  tick : ∃ ws, t.pending.tick.toList = s.pending.tick.toList ++ ws ∧
    (s.grid.size ≤ UInt32.size → ∀ w ∈ ws, ¬ w.Involves i)

variable {i j : Nat} {s t u : Scene}

theorem untouched_of_alike (h : s.Alike t) : s.Untouched i t where
  size := ⟨by rw [h.grid], by rw [h.grid]⟩
  cell := by rw [h.grid]
  stamp := h.isStamped i
  pass := ⟨[], by rw [h.pending, List.append_nil], by simp⟩
  tick := ⟨[], by rw [h.pending, List.append_nil], by simp⟩

theorem Untouched.trans (h : s.Untouched i t) (h' : t.Untouched i u) : s.Untouched i u := by
  obtain ⟨ps, hps, hpass⟩ := h.pass
  obtain ⟨ps', hps', hpass'⟩ := h'.pass
  obtain ⟨ts, hts, htick⟩ := h.tick
  obtain ⟨ts', hts', htick'⟩ := h'.tick
  rw [h.size.size] at hpass' htick'
  refine ⟨⟨h'.size.1.trans h.size.1, h'.size.2.trans h.size.2⟩, h'.cell.trans h.cell,
    h'.stamp.trans h.stamp, ⟨ps ++ ps', ?_, ?_⟩, ⟨ts ++ ts', ?_, ?_⟩⟩
  · rw [hps', hps, List.append_assoc]
  · exact fun hn => List.forall_mem_append.mpr ⟨hpass hn, hpass' hn⟩
  · rw [hts', hts, List.append_assoc]
  · exact fun hn => List.forall_mem_append.mpr ⟨htick hn, htick' hn⟩

/-- What a change of the queues has to show. -/
theorem untouched_of_pushed (ps ts : List Write) (hsize : s.SameSize t)
    (hcell : t.grid.cell i = s.grid.cell i) (hstamp : t.isStamped i = s.isStamped i)
    (hpass : t.pending.pass.toList = s.pending.pass.toList ++ ps)
    (htick : t.pending.tick.toList = s.pending.tick.toList ++ ts)
    (hws : s.grid.size ≤ UInt32.size → ∀ w ∈ ps ++ ts, ¬ w.Involves i) : s.Untouched i t :=
  ⟨hsize, hcell, hstamp,
    ⟨ps, hpass, fun hn w hw => hws hn w (List.mem_append_left _ hw)⟩,
    ⟨ts, htick, fun hn w hw => hws hn w (List.mem_append_right _ hw)⟩⟩

theorem word_inj (hi : i < s.grid.size) (hj : j < s.grid.size) (hn : s.grid.size ≤ UInt32.size)
    (h : UInt32.ofNat j = UInt32.ofNat i) : j = i := by
  rw [← Stamps.toNat_ofNat_of_lt hj hn, h, Stamps.toNat_ofNat_of_lt hi hn]

theorem untouched_put (hne : j ≠ i) (id : MaterialId) : s.Untouched i (s.put j id) :=
  untouched_of_pushed [] [] ⟨rfl, rfl⟩ (Grid.cell_set_of_ne s.grid hne id)
    (s.put_isStamped j id i) (List.append_nil _).symm (List.append_nil _).symm (by simp)

theorem untouched_write (hi : i < s.grid.size) (hj : j < s.grid.size) (hne : j ≠ i)
    (commit : Commit) (id : MaterialId) : s.Untouched i (s.write commit j id) := by
  have hword : s.grid.size ≤ UInt32.size → ¬ (Write.ofSet j id).Involves i :=
    fun hn heq => hne (word_inj hi hj hn heq)
  cases commit with
  | immediate => exact untouched_put hne id
  | endOfPass =>
    refine untouched_of_pushed [.ofSet j id] [] ⟨rfl, rfl⟩ rfl rfl
      (by simp [write, Pending.pushPass]) (List.append_nil _).symm ?_
    simpa using hword
  | endOfTick =>
    refine untouched_of_pushed [] [.ofSet j id] ⟨rfl, rfl⟩ rfl rfl
      (List.append_nil _).symm (by simp [write, Pending.pushTick]) ?_
    simpa using hword

theorem untouched_exchange {source target : Nat} (hi : i < s.grid.size)
    (hsource : source < s.grid.size) (htarget : target < s.grid.size) (hs : source ≠ i)
    (ht : target ≠ i) (commit : Commit) : s.Untouched i (s.exchange commit source target) := by
  obtain ⟨w, hw⟩ : ∃ w, w = Write.ofExchange source target (s.grid.cell source)
    (s.grid.cell target) := ⟨_, rfl⟩
  have hword : s.grid.size ≤ UInt32.size → ¬ w.Involves i := by
    rw [hw]
    rintro hn (heq | heq)
    · exact hs (word_inj hi hsource hn heq)
    · exact ht (word_inj hi htarget hn heq)
  cases commit with
  | immediate => exact (untouched_put ht _).trans (untouched_put hs _)
  | endOfPass =>
    refine untouched_of_pushed [w] [] ⟨rfl, rfl⟩ rfl rfl
      (by simp [exchange, Pending.pushPass, hw]) (List.append_nil _).symm ?_
    simpa using hword
  | endOfTick =>
    refine untouched_of_pushed [] [w] ⟨rfl, rfl⟩ rfl rfl
      (List.append_nil _).symm (by simp [exchange, Pending.pushTick, hw]) ?_
    simpa using hword

theorem untouched_move {source target : Nat} (r : CompiledRule) (hi : i < s.grid.size)
    (hsource : source < s.grid.size) (htarget : target < s.grid.size) (hs : source ≠ i)
    (ht : target ≠ i) : s.Untouched i (s.move r source target) := by
  have hexchange := untouched_exchange hi hsource htarget hs ht r.commit
  refine ⟨s.sameSize_move r source target, ?_, s.move_isStamped_of_ne r hs ht, ?_, ?_⟩
  · rw [move_grid]
    exact hexchange.cell
  · rw [move_pending]
    exact hexchange.pass
  · rw [move_pending]
    exact hexchange.tick

theorem untouched_enact {d : Deed} (hi : i < s.grid.size) (hd : s.Names d)
    (hne : ¬ d.Involves i) : s.Untouched i (s.enact d) := by
  cases d with
  | place j id => exact untouched_put hne id
  | rewrite r j id => exact untouched_write hi hd hne r.commit id
  | move r source target =>
    obtain ⟨hs, ht⟩ := not_or.mp hne
    exact untouched_move r hi hd.1 hd.2 hs ht

theorem untouched_perform {e : Event} (hi : i < s.grid.size) (he : e.Within s)
    (hne : ¬ e.Touches i) : s.Untouched i (s.perform e) := by
  cases e with
  | deed d => exact untouched_enact hi he hne
  | _ => exact untouched_of_alike ⟨rfl, rfl, rfl, rfl⟩

theorem untouched_performAll {es : List Event} (hi : i < s.grid.size)
    (hes : ∀ e ∈ es, e.Within s ∧ ¬ e.Touches i) : s.Untouched i (s.performAll es) := by
  induction es generalizing s with
  | nil => exact untouched_of_alike s.alike_refl
  | cons e es ih =>
    obtain ⟨⟨hwithin, hne⟩, hes⟩ := List.forall_mem_cons.mp hes
    have hsize := s.sameSize_perform e
    have hback : (s.perform e).SameSize s := ⟨hsize.1.symm, hsize.2.symm⟩
    refine (untouched_perform hi hwithin hne).trans (ih (hsize.size.symm ▸ hi) ?_)
    exact fun e' he' => ⟨(hes e' he').1.of_sameSize hback, (hes e' he').2⟩

end Scene

/-- Of the events only the last touches the cell, and it is a deed. -/
def TouchedAtEnd (i : Nat) (es : List Event) : Prop :=
  ∃ during d, es = during ++ [.deed d] ∧ d.Involves i ∧ ∀ e ∈ during, ¬ e.Touches i

/-- Of the events only the last touches the cell. It is a deed, and the last outcome that has been
carried out has done it. -/
def TouchedLast (i : Nat) (es : List Event) : Prop :=
  ∃ before c o during d, es = (before ++ .outcome c o :: during) ++ [.deed d] ∧
    (∀ e ∈ during, ¬ e.IsOutcome) ∧ d.Involves i ∧
      ∀ e ∈ before ++ .outcome c o :: during, ¬ e.Touches i

theorem TouchedLast.spared {i : Nat} {es es' : List Event} {e : Event} (h : TouchedLast i es)
    (hes : es = es' ++ [e]) : ∀ e' ∈ es', ¬ e'.Touches i := by
  obtain ⟨before, c, o, during, d, hevents, -, -, hspared⟩ := h
  rw [hes] at hevents
  obtain ⟨rfl, -⟩ := List.append_inj' hevents rfl
  exact hspared

/-- Where events end in a certain way, they do so too if others come before that leave the cell
alone. -/
def Deferrable (Ends : Nat → List Event → Prop) : Prop :=
  ∀ i es es', (∀ e ∈ es, ¬ e.Touches i) → Ends i es' → Ends i (es ++ es')

theorem deferrable_touchedAtEnd : Deferrable TouchedAtEnd := by
  rintro i es _ hes ⟨during, d, rfl, hd, hspared⟩
  refine ⟨es ++ during, d, by simp, hd, ?_⟩
  exact List.forall_mem_append.mpr ⟨hes, hspared⟩

theorem deferrable_touchedLast : Deferrable TouchedLast := by
  rintro i es _ hes ⟨before, c, o, during, d, rfl, hduring, hd, hspared⟩
  refine ⟨es ++ before, c, o, during, d, by simp, hduring, hd, ?_⟩
  rw [List.append_assoc]
  exact List.forall_mem_append.mpr ⟨hes, hspared⟩

namespace Course

/-- The course names cells of the grid, and it touches the acting cell only to end in a certain way
and to report it. -/
structure Minds (Ends : Nat → List Event → Prop) (a : Actor) (s : Scene) (k : Course) : Prop where
  within : ∀ e ∈ k.events, e.Within s
  spares : k.flow ≠ .changed → ∀ e ∈ k.events, ¬ e.Touches a.index
  touches : k.flow = .changed → Ends a.index k.events

variable {Ends : Nat → List Event → Prop} {a : Actor} {s t : Scene} {k v : Course}

theorem Minds.idle {flow : Flow} (hflow : flow ≠ .changed) (hits : Nat) {es : List Event}
    (hes : ∀ e ∈ es, e.Within s ∧ ¬ e.Touches a.index) : Minds Ends a s ⟨flow, hits, es⟩ :=
  ⟨fun e he => (hes e he).1, fun _ e he => (hes e he).2, fun h => absurd h hflow⟩

theorem Minds.still {flow : Flow} (hflow : flow ≠ .changed) (hits : Nat) :
    Minds Ends a s ⟨flow, hits, []⟩ :=
  .idle hflow hits (List.forall_mem_nil _)

theorem Minds.drawn {flow : Flow} (hflow : flow ≠ .changed) (hits : Nat) :
    Minds Ends a s ⟨flow, hits, [.draw]⟩ :=
  .idle hflow hits (by simp [Event.Within, Event.Touches])

theorem Minds.ending {d : Deed} (hits : Nat) (hd : s.Names d) (hinvolves : d.Involves a.index) :
    Minds TouchedAtEnd a s ⟨.changed, hits, [.deed d]⟩ :=
  ⟨by simp [Event.Within, hd], fun h => absurd rfl h,
    fun _ => ⟨[], d, rfl, hinvolves, List.forall_mem_nil _⟩⟩

theorem Minds.after (h : Minds Ends a t k) (hEnds : Deferrable Ends) (hsize : s.SameSize t)
    (es : List Event) (hes : ∀ e ∈ es, e.Within s ∧ ¬ e.Touches a.index) :
    Minds Ends a s (k.after es) where
  within := List.forall_mem_append.mpr
    ⟨fun e he => (hes e he).1, fun e he => (h.within e he).of_sameSize hsize⟩
  spares hflow := List.forall_mem_append.mpr ⟨fun e he => (hes e he).2, h.spares hflow⟩
  touches hflow := hEnds _ _ _ (fun e he => (hes e he).2) (h.touches hflow)

theorem Minds.after_draw (h : Minds Ends a t k) (hEnds : Deferrable Ends) (hsize : s.SameSize t) :
    Minds Ends a s (k.after [.draw]) :=
  h.after hEnds hsize [.draw] (by simp [Event.Within, Event.Touches])

theorem Minds.ending_draw {d : Deed} (hits : Nat) (hd : s.Names d)
    (hinvolves : d.Involves a.index) :
    Minds TouchedAtEnd a s ⟨.changed, hits, [.draw, .deed d]⟩ :=
  (Minds.ending hits hd hinvolves).after_draw deferrable_touchedAtEnd ⟨rfl, rfl⟩

/-- A course may go on after a part that has not changed the acting cell. -/
theorem Minds.trans (hv : Minds Ends a s v) (hflow : v.flow ≠ .changed) (hk : Minds Ends a t k)
    (hEnds : Deferrable Ends) (hsize : s.SameSize t) : Minds Ends a s (k.after v.events) :=
  hk.after hEnds hsize v.events fun e he => ⟨hv.within e he, hv.spares hflow e he⟩

end Course

namespace Firing

variable {b : RuleBook} {r : CompiledRule} {a : Actor} {c : Candidate} {s : Scene}

theorem actorCourse_minds (h : a.Placed s) (this : Option MaterialId) (p : Binary32)
    (hits : Nat) :
    (actorCourse r a this p hits s).Minds TouchedAtEnd a s := by
  have hafter : afterHits r hits ≠ .changed := by
    unfold afterHits
    split_ifs <;> exact nofun
  cases this with
  | none => exact .still hafter hits
  | some this =>
    simp only [actorCourse]
    split_ifs
    · exact .ending_draw hits h.inside rfl
    · exact .drawn hafter hits

theorem transformCourse_minds (h : a.Placed s) (hc : c.Seen a s)
    (this other : Option MaterialId) (p q : Binary32) (hits : Nat) :
    (transformCourse r a c this other p q hits s).Minds TouchedAtEnd a s := by
  cases other with
  | none => exact actorCourse_minds h this p hits
  | some into =>
    have hsize : s.SameSize (s.perform .draw) := ⟨rfl, rfl⟩
    simp only [transformCourse]
    split_ifs with hpassed hown
    · exact .ending_draw hits hc.inside hown
    · have hsize' : s.SameSize ((s.perform .draw).enact (.rewrite r c.index into)) :=
        Scene.sameSize_write (s.perform .draw) r.commit c.index into
      refine (actorCourse_minds (h.of_sameSize hsize') this p (hits + 1)).after
        deferrable_touchedAtEnd hsize' [.draw, .deed (.rewrite r c.index into)] ?_
      simp [Event.Within, Event.Touches, Deed.Involves, Scene.Names, hc.inside, hown]
    · exact (actorCourse_minds (h.of_sameSize hsize) this p hits).after_draw
        deferrable_touchedAtEnd hsize

theorem directionCourse_minds (h : a.Placed s) (hc : c.Seen a s) (reach : Int) (allow : IdSet)
    (hits : Nat) :
    (directionCourse r a c reach allow hits s).Minds TouchedAtEnd a s := by
  simp only [directionCourse]
  split_ifs with hside hpos
  · exact .still (by decide) hits
  · cases hto : throwTarget? a c.dx.sign c.dy.sign reach allow s with
    | none => exact .still (by decide) hits
    | some t => exact .ending hits ⟨h.inside, (throwTarget?_eq_some hto).1⟩ (.inl rfl)
  · cases hto : pullTarget? a c c.dx.sign c.dy.sign (-reach) allow s with
    | none => exact .still (by decide) hits
    | some t =>
      -- the pulled candidate is off to a side, and it does not land on the actor
      obtain ⟨ht, hta, -⟩ := pullTarget?_eq_some hto
      have hca := hc.ne_actor h hside
      refine .idle (by decide) hits ?_
      simp [Event.Within, Event.Touches, Deed.Involves, Scene.Names, hc.inside, ht, hca, hta]

theorem applyCourse_minds (h : a.Placed s) (hc : c.Seen a s) (o : Outcome) (hits : Nat) :
    (applyCourse b r a c o hits s).Minds TouchedAtEnd a s := by
  have hmove : Course.Minds TouchedAtEnd a s
      ⟨.changed, hits, [.draw, .deed (.move r a.index c.index)]⟩ :=
    .ending_draw hits ⟨h.inside, hc.inside⟩ (.inl rfl)
  cases o with
  | noop => exact .still (by decide) hits
  | stop => exact .still (by decide) hits
  | transform this other p q => exact transformCourse_minds h hc this other p q hits
  | swap p =>
    simp only [applyCourse, swapCourse]
    split_ifs
    · exact .still (by decide) hits
    · exact hmove
    · exact .drawn (by decide) hits
  | densitySwap =>
    simp only [applyCourse, densityCourse]
    split_ifs
    · exact .still (by decide) hits
    · exact .still (by decide) hits
    · exact hmove
    · exact .drawn (by decide) hits
  | directionSwap reach allow => exact directionCourse_minds h hc reach.toInt allow hits

theorem visitCourse_minds (h : a.Placed s) (k hits : Nat) :
    (visitCourse b r a k hits s).Minds TouchedLast a s := by
  rcases visitCourse_cases (b := b) (r := r) (a := a) k hits s with hidle | ⟨c, o, hc, happly⟩
  · rw [hidle]
    exact .idle (by decide) hits (by simp [Event.Within, Event.Touches])
  · rw [happly]
    have hminds := applyCourse_minds (b := b) (r := r) h hc o hits
    have hacts := applyCourse_acts (b := b) (r := r) (a := a) (c := c) o hits s
    generalize applyCourse b r a c o hits s = v at hminds hacts
    refine ⟨?_, fun hflow => ?_, fun hflow => ?_⟩
    · exact List.forall_mem_append.mpr ⟨by simp [Event.Within], hminds.within⟩
    · exact List.forall_mem_append.mpr ⟨by simp [Event.Touches], hminds.spares hflow⟩
    · obtain ⟨during, d, hevents, hd, hduring⟩ := hminds.touches hflow
      refine ⟨[.look k], c, o, during, d, by simp [hevents], ?_, hd, ?_⟩
      · intro e he hout
        have hact := hacts e (by simp [hevents, he])
        cases e with
        | outcome => exact hact
        | _ => exact hout
      · exact List.forall_mem_append.mpr ⟨by simp [Event.Touches],
          List.forall_mem_cons.mpr ⟨by simp [Event.Touches], hduring⟩⟩

theorem walkCourse_minds (ks : List Nat) (hits : Nat) (h : a.Placed s) :
    (walkCourse b r a ks hits s).Minds TouchedLast a s := by
  induction ks generalizing hits s with
  | nil => exact .still (by decide) hits
  | cons k ks ih =>
    have hv := visitCourse_minds (b := b) (r := r) h k hits
    simp only [walkCourse]
    split_ifs with hflow
    · have hsize := s.sameSize_performAll (visitCourse b r a k hits s).events
      exact hv.trans (by simp [hflow]) (ih _ (h.of_sameSize hsize)) deferrable_touchedLast hsize
    · exact hv

theorem sampleCourse_minds (n hits : Nat) (h : a.Placed s) :
    (sampleCourse b r a n hits s).Minds TouchedLast a s := by
  induction n generalizing hits s with
  | zero => exact .still (by decide) hits
  | succ n ih =>
    have hdraw : s.SameSize (s.perform .draw) := ⟨rfl, rfl⟩
    have hv := (visitCourse_minds (b := b) (r := r) (h.of_sameSize hdraw) (s.below r.count.toNat).1
      hits).after_draw deferrable_touchedLast hdraw
    simp only [sampleCourse]
    generalize (visitCourse b r a (s.below r.count.toNat).1 hits
      (s.perform .draw)).after [.draw] = v at hv ⊢
    split_ifs with hflow
    · have hsize := s.sameSize_performAll v.events
      exact hv.trans (by simp [hflow]) (ih _ (h.of_sameSize hsize)) deferrable_touchedLast hsize
    · exact hv

theorem fireCourse_minds (r : CompiledRule) (h : a.Placed s) :
    (fireCourse b r a s).Minds TouchedLast a s := by
  have hdraw : s.SameSize (s.perform .draw) := ⟨rfl, rfl⟩
  rw [fireCourse]
  cases r.starts with
  | none => exact sampleCourse_minds r.samples 0 h
  | some starts =>
    exact (walkCourse_minds _ 0 (h.of_sameSize hdraw)).after_draw deferrable_touchedLast hdraw

theorem rulesCourse_minds (rs : List CompiledRule) (h : a.Placed s) :
    (rulesCourse b a rs s).Minds TouchedLast a s := by
  induction rs generalizing s with
  | nil => exact .still (by decide) 0
  | cons r rs ih =>
    have hbegun : s.SameSize (s.performAll [.attempted, .draw, .fired]) := ⟨rfl, rfl⟩
    have hdrawn : s.SameSize (s.performAll [.attempted, .draw]) := ⟨rfl, rfl⟩
    have hfire := (fireCourse_minds (b := b) r (h.of_sameSize hbegun)).after
      deferrable_touchedLast hbegun [.attempted, .draw, .fired]
      (by simp [Event.Within, Event.Touches])
    simp only [rulesCourse]
    generalize (fireCourse b r a (s.performAll [.attempted, .draw, .fired])).after
      [.attempted, .draw, .fired] = f at hfire ⊢
    split_ifs with hpassed hend
    · exact hfire
    · have hsize := s.sameSize_performAll f.events
      exact hfire.trans (not_or.mp hend).2 (ih (h.of_sameSize hsize)) deferrable_touchedLast hsize
    · exact (ih (h.of_sameSize hdrawn)).after deferrable_touchedLast hdrawn [.attempted, .draw]
        (by simp [Event.Within, Event.Touches])

end Firing

theorem turnCourse_minds (b : RuleBook) (pass : Pass) {x y : Nat} {s : Scene}
    (hx : x < s.grid.width) (hy : y < s.grid.height) :
    (turnCourse b pass x y s).Minds TouchedLast
      ⟨x, y, s.grid.index x y, s.grid.cell (s.grid.index x y)⟩ s := by
  have hplaced : Actor.Placed ⟨x, y, s.grid.index x y, s.grid.cell (s.grid.index x y)⟩
      s.countVisited := ⟨hx, hy, rfl⟩
  have hvisited : s.SameSize s.countVisited := ⟨rfl, rfl⟩
  rw [turnCourse]
  rcases b.rules pass (s.grid.cell (s.grid.index x y)) with _ | ⟨r, rs⟩
  · exact .still (by decide) 0
  · exact (Firing.rulesCourse_minds (r :: rs) hplaced).after deferrable_touchedLast hvisited
      [.visited] (by simp [Event.Within, Event.Touches])

/-- The turn of a cell is its course, and its answer tells what the course has done to the cell. If
it is false, no event has touched the cell: it holds what it held and is stamped as it was, and no
write that has been put off names it. If it is true, exactly one event has touched the cell, the
deed of the last outcome carried out; up to it the cell was untouched, and nothing comes after it.
-/
theorem runCell_touches_its_cell_once (b : RuleBook) (pass : Pass) {x y : Nat} {s : Scene}
    (hx : x < s.grid.width) (hy : y < s.grid.height) :
    (runCell b pass x y s).2 = s.performAll (turnCourse b pass x y s).events ∧
    ((runCell b pass x y s).1 = false →
      (∀ e ∈ (turnCourse b pass x y s).events, ¬ e.Touches (s.grid.index x y)) ∧
        s.Untouched (s.grid.index x y) (runCell b pass x y s).2) ∧
    ((runCell b pass x y s).1 = true →
      TouchedLast (s.grid.index x y) (turnCourse b pass x y s).events ∧
        ∀ es e, (turnCourse b pass x y s).events = es ++ [e] →
          s.Untouched (s.grid.index x y) (s.performAll es) ∧
            (runCell b pass x y s).2 = (s.performAll es).perform e) := by
  have hinside : s.grid.index x y < s.grid.size := Grid.index_lt hx hy
  have hminds := turnCourse_minds b pass hx hy
  rw [runCell_course]
  refine ⟨rfl, fun hfalse => ?_, fun htrue => ?_⟩
  · have hspares := hminds.spares (of_decide_eq_false hfalse)
    exact ⟨hspares, Scene.untouched_performAll hinside
      fun e he => ⟨hminds.within e he, hspares e he⟩⟩
  · have hlast := hminds.touches (of_decide_eq_true htrue)
    refine ⟨hlast, fun es e hes => ⟨?_, ?_⟩⟩
    · refine Scene.untouched_performAll hinside fun e' he' => ⟨?_, hlast.spared hes e' he'⟩
      exact hminds.within e' (hes ▸ List.mem_append_left _ he')
    · rw [hes, Scene.performAll_append]
      rfl

/-- A black hole pulls sand and is left alone; the sand falls, and that is the end of its turn. -/
theorem runCell_touches_its_cell_once_pulled :
    ∃ b s, RuleBook.compile Catalog.builtin = .ok b ∧
      s = ((Scene.fresh 4 4 true 43).put 0 Catalog.Builtin.blackHole).put 3 Catalog.Builtin.sand ∧
      ((runCell b .falling 0 0 s).1 = false ∧
        (runCell b .falling 0 0 s).2.grid.cell 2 = Catalog.Builtin.sand ∧
        s.Untouched 0 (runCell b .falling 0 0 s).2) ∧
      ((runCell b .falling 3 0 s).1 = true ∧
        TouchedLast 3 (turnCourse b .falling 3 0 s).events) := by
  obtain ⟨b, hb⟩ := RuleBook.compile_builtin
  obtain ⟨s, hs⟩ : ∃ s, s = ((Scene.fresh 4 4 true 43).put 0 Catalog.Builtin.blackHole).put 3
    Catalog.Builtin.sand := ⟨_, rfl⟩
  have hwidth : s.grid.width = 4 := by rw [hs]; rfl
  have hheight : s.grid.height = 4 := by rw [hs]; rfl
  obtain ⟨-, hspared, -⟩ := runCell_touches_its_cell_once b .falling (x := 0) (y := 0) (s := s)
    (by omega) (by omega)
  obtain ⟨-, -, htouched⟩ := runCell_touches_its_cell_once b .falling (x := 3) (y := 0) (s := s)
    (by omega) (by omega)
  have hpull : ((runCell b .falling 0 0 s).1, (runCell b .falling 0 0 s).2.grid.cell 2)
      = (false, Catalog.Builtin.sand) := by
    rw [hs]
    refine RuleBook.eq_of_compile hb (f := fun b => ((runCell b .falling 0 0 _).1,
      (runCell b .falling 0 0 _).2.grid.cell 2)) ?_
    decide +kernel
  have hfall : (runCell b .falling 3 0 s).1 = true := by
    rw [hs]
    refine RuleBook.eq_of_compile hb (f := fun b => (runCell b .falling 3 0 _).1) ?_
    decide +kernel
  obtain ⟨hstill, hpulled⟩ := Prod.mk.inj hpull
  have hhole : s.grid.index 0 0 = 0 := by rw [hs]; rfl
  have hsand : s.grid.index 3 0 = 3 := by rw [hs]; rfl
  rw [hhole] at hspared
  rw [hsand] at htouched
  exact ⟨b, s, hb, hs, ⟨hstill, hpulled, (hspared hstill).2⟩, hfall, (htouched hfall).1⟩

end Sandfall
