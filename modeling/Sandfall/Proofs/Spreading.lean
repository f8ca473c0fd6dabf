import Sandfall.Proofs.OwnCell

/-! A rule that spreads, and its limit. While a rule with a limit still looks at offsets, it has
rewritten fewer candidates than the limit allows; this is kept from event to event, and so over the
whole course of the rule. A rule without a limit is ended by what it comes across only. -/

namespace Sandfall

namespace Event

/-- The event writes a cell other than the acting one, and does not just move it. -/
def isHit (i : Nat) : Event → Bool
  | .deed (.place j _) => j != i
  | .deed (.rewrite _ j _) => j != i
  | _ => false

def look? : Event → Option Nat
  | .look k => some k
  | _ => none

/-- The event neither rewrites another cell nor looks at an offset. -/
def Quiet (i : Nat) (e : Event) : Prop := e.isHit i = false ∧ e.look? = none

@[simp] theorem quiet_draw (i : Nat) : Quiet i .draw := ⟨rfl, rfl⟩

@[simp] theorem quiet_outcome (i : Nat) (c : Candidate) (o : Outcome) : Quiet i (.outcome c o) :=
  ⟨rfl, rfl⟩

@[simp] theorem quiet_move (i : Nat) (r : CompiledRule) (source target : Nat) :
    Quiet i (.deed (.move r source target)) :=
  ⟨rfl, rfl⟩

@[simp] theorem quiet_rewrite_own (i : Nat) (r : CompiledRule) (id : MaterialId) :
    Quiet i (.deed (.rewrite r i id)) :=
  ⟨bne_self_eq_false i, rfl⟩

end Event

def hitCount (i : Nat) (es : List Event) : Nat := es.countP (Event.isHit i)

def looks (es : List Event) : List Nat := es.filterMap Event.look?

section Counting

variable {limit i n : Nat} {es es' : List Event}

@[simp] theorem hitCount_nil : hitCount i [] = 0 := rfl

@[simp] theorem hitCount_cons (e : Event) (es : List Event) :
    hitCount i (e :: es) = hitCount i es + if e.isHit i then 1 else 0 :=
  List.countP_cons

@[simp] theorem hitCount_append (es es' : List Event) :
    hitCount i (es ++ es') = hitCount i es + hitCount i es' :=
  List.countP_append

@[simp] theorem looks_nil : looks [] = [] := rfl

@[simp] theorem looks_append (es es' : List Event) : looks (es ++ es') = looks es ++ looks es' :=
  List.filterMap_append

theorem hitCount_eq_zero_of_quiet (h : ∀ e ∈ es, e.Quiet i) : hitCount i es = 0 :=
  List.countP_eq_zero.mpr fun e he => by simp [(h e he).1]

theorem looks_eq_nil_of_acts (h : ∀ e ∈ es, e.Acts) : looks es = [] := by
  refine List.filterMap_eq_nil_iff.mpr fun e he => ?_
  have hact := h e he
  cases e with
  | look k => exact hact.elim
  | _ => rfl

/-- Where `n` candidates have been rewritten before, the limit is not yet reached whenever another
one is rewritten or looked at. -/
def WithinLimit (limit i : Nat) : Nat → List Event → Prop
  | _, [] => True
  | n, e :: es =>
    (e.Quiet i ∨ n < limit) ∧ WithinLimit limit i (n + if e.isHit i then 1 else 0) es

theorem withinLimit_append :
    WithinLimit limit i n (es ++ es') ↔
      WithinLimit limit i n es ∧ WithinLimit limit i (n + hitCount i es) es' := by
  induction es generalizing n with
  | nil => simp [WithinLimit]
  | cons e es ih =>
    rw [List.cons_append, WithinLimit, WithinLimit, ih, hitCount_cons, and_assoc,
      Nat.add_assoc, Nat.add_comm (hitCount i es)]

theorem withinLimit_of_quiet (h : ∀ e ∈ es, e.Quiet i) : WithinLimit limit i n es := by
  induction es generalizing n with
  | nil => trivial
  | cons e es ih =>
    obtain ⟨he, hes⟩ := List.forall_mem_cons.mp h
    exact ⟨.inl he, ih hes⟩

theorem WithinLimit.hitCount_le (h : WithinLimit limit i n es) (hn : n ≤ limit) :
    n + hitCount i es ≤ limit := by
  induction es generalizing n with
  | nil => exact hn
  | cons e es ih =>
    obtain ⟨he, hes⟩ := h
    rw [hitCount_cons, Nat.add_comm (hitCount i es), ← Nat.add_assoc]
    refine ih hes ?_
    by_cases hhit : e.isHit i = true
    · have hlt := he.resolve_left fun hquiet => by simp [hquiet.1] at hhit
      simpa [hhit] using hlt
    · simpa [hhit] using hn

theorem WithinLimit.looks_eq_nil (h : WithinLimit limit i n es) (hn : limit ≤ n) :
    looks es = [] := by
  induction es generalizing n with
  | nil => rfl
  | cons e es ih =>
    obtain ⟨he, hes⟩ := h
    have hquiet := he.resolve_right (Nat.not_lt.mpr hn)
    rw [looks, List.filterMap_cons, hquiet.2]
    exact ih hes (hn.trans (Nat.le_add_right _ _))

end Counting

namespace Course

/-- The course counts the candidates it rewrites, keeps to the limit of its rule, and goes on only
below it. A rule without a limit ends when it has looked at all it should, when an outcome stops
it, or with a deed done to the acting cell. -/
structure Metered (r : CompiledRule) (i : Nat) (Done : List Nat → Prop) (hits : Nat)
    (k : Course) : Prop where
  counts : k.hits = hits + hitCount i k.events
  within : hits < r.limit → WithinLimit r.limit i hits k.events
  goesOn : k.flow = .next → hits < r.limit → k.hits < r.limit
  done : k.flow = .nextRule → r.limit = 0 → Done (looks k.events)
  stopped : k.flow = .halt → ∃ es c, k.events = es ++ [.outcome c .stop]
  touched : k.flow = .changed → ∃ es d, k.events = es ++ [.deed d] ∧ d.Involves i

variable {r : CompiledRule} {i hits : Nat} {Done Done' Done'' : List Nat → Prop} {k v : Course}

theorem Metered.idle {es : List Event} (hes : ∀ e ∈ es, e.Quiet i) :
    Metered r i Done hits ⟨.next, hits, es⟩ where
  counts := by rw [hitCount_eq_zero_of_quiet hes, Nat.add_zero]
  within _ := withinLimit_of_quiet hes
  goesOn _ hlt := hlt
  done := nofun
  stopped := nofun
  touched := nofun

theorem Metered.looking {es : List Event} (k : Nat) (hes : ∀ e ∈ es, e.Quiet i) :
    Metered r i Done hits ⟨.next, hits, .look k :: es⟩ where
  counts := by
    rw [hitCount_cons, hitCount_eq_zero_of_quiet hes]
    rfl
  within hlt := ⟨.inr hlt, withinLimit_of_quiet hes⟩
  goesOn _ hlt := hlt
  done := nofun
  stopped := nofun
  touched := nofun

theorem Metered.stopping (k : Nat) (c : Candidate) :
    Metered r i Done hits ⟨.halt, hits, [.look k, .outcome c .stop]⟩ where
  counts := rfl
  within hlt := ⟨.inr hlt, withinLimit_of_quiet (by simp)⟩
  goesOn := nofun
  done := nofun
  stopped _ := ⟨[.look k], c, rfl⟩
  touched := nofun

theorem Metered.exhausted (hDone : Done []) : Metered r i Done hits ⟨.nextRule, hits, []⟩ where
  counts := rfl
  within _ := trivial
  goesOn := nofun
  done _ _ := hDone
  stopped := nofun
  touched := nofun

theorem Metered.checked {n : Nat} {es : List Event} (hn : n = hits + hitCount i es)
    (hes : hits < r.limit → WithinLimit r.limit i hits es) :
    Metered r i Done hits ⟨Firing.afterHits r n, n, es⟩ where
  counts := hn
  within := hes
  goesOn hflow hlt := by
    simp only [Firing.afterHits] at hflow
    split_ifs at hflow with hreached
    exact Nat.lt_of_not_le fun hle => hreached ⟨Nat.zero_lt_of_lt hlt, hle⟩
  done hflow hlimit := by
    simp [Firing.afterHits, hlimit] at hflow
  stopped hflow := by
    simp only [Firing.afterHits] at hflow
    split_ifs at hflow
  touched hflow := by
    simp only [Firing.afterHits] at hflow
    split_ifs at hflow

theorem Metered.touching {n : Nat} {d : Deed} (es : List Event)
    (hn : n = hits + hitCount i (es ++ [.deed d]))
    (hes : hits < r.limit → WithinLimit r.limit i hits (es ++ [.deed d])) (hd : d.Involves i) :
    Metered r i Done hits ⟨.changed, n, es ++ [.deed d]⟩ where
  counts := hn
  within := hes
  goesOn := nofun
  done := nofun
  stopped := nofun
  touched _ := ⟨es, d, rfl, hd⟩

theorem Metered.touching_quietly {d : Deed} (es : List Event)
    (hes : ∀ e ∈ es ++ [.deed d], e.Quiet i) (hd : d.Involves i) :
    Metered r i Done hits ⟨.changed, hits, es ++ [.deed d]⟩ :=
  .touching es (by rw [hitCount_eq_zero_of_quiet hes, Nat.add_zero])
    (fun _ => withinLimit_of_quiet hes) hd

theorem Metered.mono (h : Metered r i Done hits k) (hDone : ∀ ks, Done ks → Done' ks) :
    Metered r i Done' hits k :=
  { h with done := fun hflow hlimit => hDone _ (h.done hflow hlimit) }

/-- A course may go on after a part that has left the rule below its limit. -/
theorem Metered.trans (hv : Metered r i Done hits v) (hflow : v.flow = .next)
    (hk : Metered r i Done' v.hits k) (hDone : ∀ ks, Done' ks → Done'' (looks v.events ++ ks)) :
    Metered r i Done'' hits (k.after v.events) where
  counts := by
    rw [after_hits, after_events, hk.counts, hv.counts, hitCount_append, Nat.add_assoc]
  within hlt := by
    refine withinLimit_append.mpr ⟨hv.within hlt, ?_⟩
    rw [← hv.counts]
    exact hk.within (hv.goesOn hflow hlt)
  goesOn hnext hlt := hk.goesOn hnext (hv.goesOn hflow hlt)
  done hnextRule hlimit := by
    rw [after_events, looks_append]
    exact hDone _ (hk.done hnextRule hlimit)
  stopped hhalt := by
    obtain ⟨es, c, hevents⟩ := hk.stopped hhalt
    exact ⟨v.events ++ es, c, by rw [after_events, hevents, List.append_assoc]⟩
  touched hchanged := by
    obtain ⟨es, d, hevents, hd⟩ := hk.touched hchanged
    exact ⟨v.events ++ es, d, by rw [after_events, hevents, List.append_assoc], hd⟩

theorem Metered.after_draw (h : Metered r i Done hits k) :
    Metered r i Done hits (k.after [.draw]) := by
  have hdrawn : Metered r i Done hits ⟨.next, hits, [.draw]⟩ := .idle (by simp)
  exact hdrawn.trans rfl h fun _ hks => hks

end Course

namespace Firing

variable {b : RuleBook} {r : CompiledRule} {a : Actor} {c : Candidate} {s : Scene}
  {Done : List Nat → Prop}

/-- The acting cell is rewritten after some candidates have been, and this is no hit. -/
theorem actorCourse_metered (this : Option MaterialId) (p : Binary32) {hits n : Nat}
    (es : List Event) (hn : n = hits + hitCount a.index es)
    (hes : hits < r.limit → WithinLimit r.limit a.index hits es) :
    ((actorCourse r a this p n s).after es).Metered r a.index Done hits := by
  have hquiet : ∀ es', (∀ e ∈ es', e.Quiet a.index) →
      n = hits + hitCount a.index (es ++ es') ∧
        (hits < r.limit → WithinLimit r.limit a.index hits (es ++ es')) := by
    intro es' hes'
    rw [hitCount_append, hitCount_eq_zero_of_quiet hes', Nat.add_zero]
    exact ⟨hn, fun hlt => withinLimit_append.mpr ⟨hes hlt, withinLimit_of_quiet hes'⟩⟩
  cases this with
  | none =>
    obtain ⟨hcount, hwithin⟩ := hquiet [] (List.forall_mem_nil _)
    exact .checked hcount hwithin
  | some this =>
    simp only [actorCourse]
    split_ifs
    · obtain ⟨hcount, hwithin⟩ := hquiet [.draw, .deed (.rewrite r a.index this)]
        (by simp)
      rw [List.append_cons] at hcount hwithin
      simp only [Course.after]
      rw [List.append_cons]
      exact .touching _ hcount hwithin rfl
    · obtain ⟨hcount, hwithin⟩ := hquiet [.draw] (by simp)
      exact .checked hcount hwithin

theorem transformCourse_metered (this other : Option MaterialId) (p q : Binary32) (hits : Nat) :
    (transformCourse r a c this other p q hits s).Metered r a.index Done hits := by
  cases other with
  | none => exact actorCourse_metered this p [] rfl fun _ => trivial
  | some into =>
    simp only [transformCourse]
    split_ifs with hpassed hown
    · exact .touching_quietly [.draw] (by simp [hown]) hown
    · refine actorCourse_metered this p _ ?_ fun hlt => ?_
      · simp [Event.isHit, hown]
      · simp [WithinLimit, Event.isHit, hlt]
    · refine actorCourse_metered this p _ ?_ fun hlt => withinLimit_of_quiet ?_
      · simp [Event.isHit]
      · simp

theorem directionCourse_metered (reach : Int) (allow : IdSet) (hits : Nat) :
    (directionCourse r a c reach allow hits s).Metered r a.index Done hits := by
  simp only [directionCourse]
  split_ifs
  · exact .idle (List.forall_mem_nil _)
  · cases throwTarget? a c.dx.sign c.dy.sign reach allow s with
    | none => exact .idle (List.forall_mem_nil _)
    | some t => exact .touching_quietly [] (by simp) (.inl rfl)
  · cases pullTarget? a c c.dx.sign c.dy.sign (-reach) allow s with
    | none => exact .idle (List.forall_mem_nil _)
    | some t => exact .idle (by simp)

theorem applyCourse_metered {o : Outcome} (ho : o ≠ .stop) (hits : Nat) :
    (applyCourse b r a c o hits s).Metered r a.index Done hits := by
  have hstill : Course.Metered r a.index Done hits ⟨.next, hits, []⟩ :=
    .idle (List.forall_mem_nil _)
  have hdrawn : Course.Metered r a.index Done hits ⟨.next, hits, [.draw]⟩ := .idle (by simp)
  have hmoved : Course.Metered r a.index Done hits
      ⟨.changed, hits, [.draw, .deed (.move r a.index c.index)]⟩ :=
    .touching_quietly [.draw] (by simp) (.inl rfl)
  cases o with
  | noop => exact hstill
  | stop => exact absurd rfl ho
  | transform this other p q => exact transformCourse_metered this other p q hits
  | swap p =>
    simp only [applyCourse, swapCourse]
    split_ifs
    · exact hstill
    · exact hmoved
    · exact hdrawn
  | densitySwap =>
    simp only [applyCourse, densityCourse]
    split_ifs
    · exact hstill
    · exact hstill
    · exact hmoved
    · exact hdrawn
  | directionSwap reach allow => exact directionCourse_metered reach.toInt allow hits

theorem looks_visitCourse (k hits : Nat) (s : Scene) :
    looks (visitCourse b r a k hits s).events = [k] := by
  rcases visitCourse_cases (b := b) (r := r) (a := a) k hits s with hidle | ⟨c, o, -, happly⟩
  · rw [hidle]
    rfl
  · rw [happly, Course.after_events, looks_append, looks_eq_nil_of_acts (applyCourse_acts o hits s)]
    rfl

/-- A rule without a limit does not end with a visit unless it is stopped or changes the cell. -/
theorem visitCourse_metered (k hits : Nat) :
    (visitCourse b r a k hits s).Metered r a.index (fun _ => False) hits := by
  rcases visitCourse_cases (b := b) (r := r) (a := a) k hits s with hidle | ⟨c, o, -, happly⟩
  · rw [hidle]
    exact .looking k (List.forall_mem_nil _)
  · rw [happly]
    by_cases ho : o = .stop
    · rw [ho]
      exact .stopping k c
    · have hlook : Course.Metered r a.index (fun _ => False) hits
          ⟨.next, hits, [.look k, .outcome c o]⟩ := .looking k (by simp)
      exact hlook.trans rfl (applyCourse_metered ho hits) fun _ => False.elim

theorem walkCourse_metered (ks : List Nat) (hits : Nat) :
    (walkCourse b r a ks hits s).flow ≠ .next ∧
      (walkCourse b r a ks hits s).Metered r a.index (· = ks) hits := by
  induction ks generalizing hits s with
  | nil => exact ⟨nofun, .exhausted rfl⟩
  | cons k ks ih =>
    have hv := visitCourse_metered (b := b) (r := r) (a := a) (s := s) k hits
    simp only [walkCourse]
    split_ifs with hflow
    · obtain ⟨hne, hrest⟩ := ih (visitCourse b r a k hits s).hits
        (s := s.performAll (visitCourse b r a k hits s).events)
      refine ⟨hne, hv.trans hflow hrest ?_⟩
      rintro _ rfl
      rw [looks_visitCourse, List.singleton_append]
    · exact ⟨hflow, hv.mono fun _ => False.elim⟩

theorem sampleCourse_metered (n hits : Nat) :
    (sampleCourse b r a n hits s).flow ≠ .next ∧
      (sampleCourse b r a n hits s).Metered r a.index (·.length = n) hits := by
  induction n generalizing hits s with
  | zero => exact ⟨nofun, .exhausted rfl⟩
  | succ n ih =>
    have hv := (visitCourse_metered (b := b) (r := r) (a := a) (s := s.perform .draw)
      (s.below r.count.toNat).1 hits).after_draw
    have hlooks : looks ((visitCourse b r a (s.below r.count.toNat).1 hits
        (s.perform .draw)).after [.draw]).events = [(s.below r.count.toNat).1] :=
      looks_visitCourse _ _ _
    simp only [sampleCourse]
    generalize (visitCourse b r a (s.below r.count.toNat).1 hits
      (s.perform .draw)).after [.draw] = v at hv hlooks ⊢
    split_ifs with hflow
    · obtain ⟨hne, hrest⟩ := ih v.hits (s := s.performAll v.events)
      refine ⟨hne, hv.trans hflow hrest fun ks hks => ?_⟩
      rw [hlooks, List.singleton_append, List.length_cons, hks]
    · exact ⟨hflow, hv.mono fun _ => False.elim⟩

/-- The offsets are all that the rule may look at when it fires: those of the group it draws, in
order, or as many as it samples. -/
def LooksAtAll (r : CompiledRule) (s : Scene) (ks : List Nat) : Prop :=
  match r.starts with
  | some starts =>
    let g := CompiledRule.group starts (s.below (CompiledRule.groupCount starts)).1
    ks = List.range' g.1 (g.2 - g.1)
  | none => ks.length = r.samples

theorem fireCourse_metered :
    (fireCourse b r a s).flow ≠ .next ∧
      (fireCourse b r a s).Metered r a.index (LooksAtAll r s) 0 := by
  rw [fireCourse]
  cases hstarts : r.starts with
  | none =>
    obtain ⟨hne, hsample⟩ := sampleCourse_metered (b := b) (r := r) (a := a) (s := s) r.samples 0
    exact ⟨hne, hsample.mono fun ks hks => by rwa [LooksAtAll, hstarts]⟩
  | some starts =>
    obtain ⟨hne, hwalk⟩ := walkCourse_metered (b := b) (r := r) (a := a) (s := s.perform .draw)
      (List.range' (CompiledRule.group starts (s.below (CompiledRule.groupCount starts)).1).1 _) 0
    exact ⟨hne, hwalk.after_draw.mono fun ks hks => by rwa [LooksAtAll, hstarts]⟩

/-- A rule that fires does what its course says. If it has a limit, it rewrites at most as many
candidates other than the acting cell, and once it has rewritten as many it looks at no further
offset. If it has none, it ends after the last offset, with the outcome that stops it, or with a
deed done to the acting cell. -/
theorem firing_keeps_to_its_limit (b : RuleBook) (r : CompiledRule) (a : Actor) (s : Scene) :
    fire b r a s = ((fireCourse b r a s).flow, s.performAll (fireCourse b r a s).events) ∧
    (0 < r.limit →
      hitCount a.index (fireCourse b r a s).events ≤ r.limit ∧
        ∀ es es', (fireCourse b r a s).events = es ++ es' →
          hitCount a.index es = r.limit → looks es' = []) ∧
    (r.limit = 0 →
      (fireCourse b r a s).flow = .nextRule ∧ LooksAtAll r s (looks (fireCourse b r a s).events) ∨
      (fireCourse b r a s).flow = .halt ∧
        (∃ es c, (fireCourse b r a s).events = es ++ [.outcome c .stop]) ∨
      (fireCourse b r a s).flow = .changed ∧
        ∃ es d, (fireCourse b r a s).events = es ++ [.deed d] ∧ d.Involves a.index) := by
  obtain ⟨hne, hmetered⟩ := fireCourse_metered (b := b) (r := r) (a := a) (s := s)
  refine ⟨fire_course b r a s, fun hpos => ?_, fun hlimit => ?_⟩
  · have hwithin := hmetered.within hpos
    refine ⟨?_, fun es es' hes hhits => ?_⟩
    · simpa using hwithin.hitCount_le (Nat.zero_le _)
    · rw [hes, withinLimit_append, hhits, Nat.zero_add] at hwithin
      exact hwithin.2.looks_eq_nil le_rfl
  · cases hflow : (fireCourse b r a s).flow with
    | next => exact absurd hflow hne
    | nextRule => exact .inl ⟨rfl, hmetered.done hflow hlimit⟩
    | halt => exact .inr (.inl ⟨rfl, hmetered.stopped hflow⟩)
    | changed => exact .inr (.inr ⟨rfl, hmetered.touched hflow⟩)

end Firing

namespace Catalog

/-- Dust, and goo that spreads over the dust to its right. -/
def sprawl (limit : Option UInt32) : Catalog :=
  (empty.define 1 { name := "dust", color := 0 }).define 2
    { name := "goo"
      color := 0
      rules := [{
        sampler := .ordered [[(1, 0), (2, 0), (3, 0), (4, 0)]]
        matchers := [⟨.ids [1], 0⟩]
        outcomes := [.transform none (some 2) .one .one]
        limit }] }

theorem compile_sprawl (limit : Option UInt32) : ∃ b, RuleBook.compile (sprawl limit) = .ok b := by
  apply RuleBook.exists_compile
  intro id a ha r hr
  simp only [sprawl, get_define, get_empty] at ha
  split_ifs at ha
  · obtain rfl := Option.some.inj ha
    obtain rfl := List.mem_singleton.mp hr
    rfl
  · obtain rfl := Option.some.inj ha
    cases hr

end Catalog

namespace Firing

/-- Goo, and four cells of dust to its right. -/
def dusty : Scene := [1, 2, 3, 4].foldl (·.put · 1) ((Scene.fresh 5 1 true 7).put 0 2)

/-- With a limit of two the goo leaves the last two cells unseen; without one it looks at all. -/
theorem firing_keeps_to_its_limit_sprawl :
    (∃ b r, RuleBook.compile (Catalog.sprawl (some 2)) = .ok b ∧ r ∈ b.rules .rising 2 ∧
      r.limit = 2 ∧ hitCount 0 (fireCourse b r ⟨0, 0, 0, 2⟩ dusty).events ≤ r.limit ∧
      hitCount 0 ((fireCourse b r ⟨0, 0, 0, 2⟩ dusty).events.take 9) = 2 ∧
      looks ((fireCourse b r ⟨0, 0, 0, 2⟩ dusty).events.drop 9) = []) ∧
    (∃ b r, RuleBook.compile (Catalog.sprawl none) = .ok b ∧ r ∈ b.rules .rising 2 ∧
      r.limit = 0 ∧ hitCount 0 (fireCourse b r ⟨0, 0, 0, 2⟩ dusty).events = 4 ∧
      LooksAtAll r dusty (looks (fireCourse b r ⟨0, 0, 0, 2⟩ dusty).events)) := by
  constructor
  · obtain ⟨b, hb⟩ := Catalog.compile_sprawl (some 2)
    have hrun : (b.rules .rising 2).map (fun r => (r.limit,
        hitCount 0 ((fireCourse b r ⟨0, 0, 0, 2⟩ dusty).events.take 9))) = [(2, 2)] := by
      refine RuleBook.eq_of_compile hb (f := fun b => (b.rules .rising 2).map (fun r => (r.limit,
        hitCount 0 ((fireCourse b r ⟨0, 0, 0, 2⟩ dusty).events.take 9)))) ?_
      decide +kernel
    obtain ⟨r, hrules, hr⟩ := List.map_eq_singleton_iff.mp hrun
    obtain ⟨hlimit, hhits⟩ := Prod.mk.inj hr
    obtain ⟨-, hlimited, -⟩ := firing_keeps_to_its_limit b r ⟨0, 0, 0, 2⟩ dusty
    obtain ⟨hle, hunseen⟩ := hlimited (by omega)
    exact ⟨b, r, hb, by simp [hrules], hlimit, hle, hhits,
      hunseen _ _ (List.take_append_drop 9 _).symm (hhits.trans hlimit.symm)⟩
  · obtain ⟨b, hb⟩ := Catalog.compile_sprawl none
    have hrun : (b.rules .rising 2).map (fun r => (r.limit,
        (fireCourse b r ⟨0, 0, 0, 2⟩ dusty).flow,
        hitCount 0 (fireCourse b r ⟨0, 0, 0, 2⟩ dusty).events)) = [(0, .nextRule, 4)] := by
      refine RuleBook.eq_of_compile hb (f := fun b => (b.rules .rising 2).map (fun r => (r.limit,
        (fireCourse b r ⟨0, 0, 0, 2⟩ dusty).flow,
        hitCount 0 (fireCourse b r ⟨0, 0, 0, 2⟩ dusty).events))) ?_
      decide +kernel
    obtain ⟨r, hrules, hr⟩ := List.map_eq_singleton_iff.mp hrun
    obtain ⟨hlimit, hr⟩ := Prod.mk.inj hr
    obtain ⟨hflow, hhits⟩ := Prod.mk.inj hr
    obtain ⟨-, -, hunlimited⟩ := firing_keeps_to_its_limit b r ⟨0, 0, 0, 2⟩ dusty
    refine ⟨b, r, hb, by simp [hrules], hlimit, hhits, ?_⟩
    rcases hunlimited hlimit with ⟨-, hall⟩ | ⟨hhalt, -⟩ | ⟨hchanged, -⟩
    · exact hall
    · exact nomatch hflow.symm.trans hhalt
    · exact nomatch hflow.symm.trans hchanged

end Firing

end Sandfall
