import Sandfall.Proofs.Claims
import Sandfall.Proofs.History
import Sandfall.Proofs.Repeats
import Sandfall.Proofs.Tables

/-! The trace. It records the moves of every pass, deed by deed, so if every moving rule claims the
cells it moves into, no recorded move starts where an earlier one of its pass has landed. Only the
last move before a pass can bear the number of the pass, when a lap of the pass counter has gone by
since. -/

namespace Sandfall

namespace Trace

/-- No move starts where an earlier move of its pass number has landed. -/
def Once (ms : List Move) : Prop :=
  ms.Pairwise fun m n => m.pass = n.pass → n.source ≠ m.target

/-- How the trace of a pass notes a deed; it takes down moves only. -/
def moveOf? (pass : UInt32) : Deed → Option Move
  | .move _ source target => some ⟨pass, UInt32.ofNat source, UInt32.ofNat target⟩
  | _ => none

/-- The trace with the moves among some deeds. -/
def recordAll (t : Trace) (ds : List Deed) : Trace :=
  { t with moves := t.moves ++ (ds.filterMap (moveOf? t.pass)).toArray }

theorem moves_recordAll (t : Trace) (ds : List Deed) : (t.recordAll ds).moves.toList
    = t.moves.toList ++ ds.filterMap (moveOf? t.pass) := by
  simp [recordAll]

theorem recordAll_nil (t : Trace) : t.recordAll [] = t := by
  simp [recordAll]

theorem recordAll_append (t : Trace) (ds es : List Deed) :
    t.recordAll (ds ++ es) = (t.recordAll ds).recordAll es := by
  simp [recordAll, Array.append_assoc]

theorem recordAll_move (t : Trace) (r : CompiledRule) (source target : Nat) :
    t.recordAll [.move r source target] = t.record source target := by
  simp [recordAll, record, moveOf?]

theorem recordAll_place (t : Trace) (i : Nat) (id : MaterialId) :
    t.recordAll [.place i id] = t := by
  simp [recordAll, moveOf?, List.filterMap_cons]

theorem recordAll_rewrite (t : Trace) (r : CompiledRule) (i : Nat) (id : MaterialId) :
    t.recordAll [.rewrite r i id] = t := by
  simp [recordAll, moveOf?, List.filterMap_cons]

theorem pass_of_mem {pass : UInt32} {ds : List Deed} {m : Move}
    (h : m ∈ ds.filterMap (moveOf? pass)) : m.pass = pass := by
  obtain ⟨d, -, hd⟩ := List.mem_filterMap.mp h
  cases d with
  | move r source target =>
    cases hd
    rfl
  | _ => cases hd

/-- Deeds that respect claims and claim where they land move nothing twice. -/
theorem once_of_respectful {ds : List Deed} (pass : UInt32) (hrespect : Deed.Respectful ds)
    (hclaims : ∀ r source target, .move r source target ∈ ds →
      (Deed.move r source target).Claims target)
    (hwords : ∀ r source target, .move r source target ∈ ds →
      (UInt32.ofNat source).toNat = source ∧ (UInt32.ofNat target).toNat = target) :
    Once (ds.filterMap (moveOf? pass)) := by
  refine List.pairwise_filterMap.mpr (List.Pairwise.imp_of_mem ?_ hrespect)
  intro d e hd he hde m hm n hn _ heq
  cases d with
  | place => cases hm
  | rewrite => cases hm
  | move r i j =>
    cases e with
    | place => cases hn
    | rewrite => cases hn
    | move r' i' j' =>
      cases hm
      cases hn
      have hsource : i' = j := by
        rw [← (hwords r' i' j' he).1, ← (hwords r i j hd).2]
        exact congrArg UInt32.toNat heq
      exact hde j (hclaims r i j hd) (.inl hsource.symm)

theorem latest_append {pass : UInt32} {ms news : List Move} (h : ∀ m ∈ news, m.pass = pass) :
    latest pass (ms ++ news) = latest pass ms ++ news := by
  induction news using List.reverseRecOn with
  | nil => rw [List.append_nil, List.append_nil]
  | append_singleton news m ih =>
    obtain ⟨hnews, hm⟩ := List.forall_mem_append.mp h
    rw [← List.append_assoc, ← hm m (List.mem_singleton_self _), latest_concat,
      hm m (List.mem_singleton_self _), ih hnews, List.append_assoc]

/-- Nothing is found to repeat among moves of a pass in which nothing moves twice, if the move
before them does not bear the number of the pass. -/
theorem repeatedMoves_recordAll {t : Trace} (h : t.repeatedMoves = [])
    (hlast : t.moves.toList.getLast?.map Move.pass ≠ some t.pass) {ds : List Deed}
    (hds : Once (ds.filterMap (moveOf? t.pass))) : (t.recordAll ds).repeatedMoves = [] := by
  have hpasses : ∀ m ∈ ds.filterMap (moveOf? t.pass), m.pass = t.pass := fun m => pass_of_mem
  rw [repeatedMoves_eq_select] at h ⊢
  rw [moves_recordAll]
  generalize ds.filterMap (moveOf? t.pass) = news at hds hpasses
  induction news using List.reverseRecOn with
  | nil => rwa [List.append_nil]
  | append_singleton news m ih =>
    obtain ⟨hds, -, hlater⟩ := List.pairwise_append.mp hds
    obtain ⟨hpasses, hm⟩ := List.forall_mem_append.mp hpasses
    have hpass := hm m (List.mem_singleton_self _)
    rw [← List.append_assoc, select_concat, ih hds hpasses, List.nil_append, if_neg]
    -- only the moves of the pass itself count
    rw [hpass, latest_append hpasses, latest_eq_nil hlast, List.nil_append]
    rintro ⟨n, hn, htarget⟩
    refine hlater n hn m (List.mem_singleton_self _) ?_ htarget.symm
    rw [hpasses n hn, hpass]

/-- No move repeats, and the last one is of the pass so many passes ago. -/
structure Calm (n : Nat) (t : Trace) : Prop where
  unrepeated : t.repeatedMoves = []
  last : ∀ m, t.moves.toList.getLast? = some m → m.pass + UInt32.ofNat n = t.pass

theorem calm_of_empty {t : Trace} (h : t.moves = #[]) (n : Nat) : t.Calm n where
  unrepeated := by
    rw [repeatedMoves, h]
    rfl
  last m hm := by
    rw [h] at hm
    cases hm

/-- In a pass that moves nothing twice either nothing is taken down, or no move repeats, unless a
whole lap of the pass counter has gone by since the last one. -/
theorem Calm.pass {n : Nat} {t : Trace} (h : t.Calm n) (hn : n + 1 < UInt32.size) {ds : List Deed}
    (hds : Once (ds.filterMap (moveOf? t.beginPass.pass))) :
    ((t.beginPass.recordAll ds).moves = t.moves ∧ (t.beginPass.recordAll ds).Calm (n + 1)) ∨
      (t.beginPass.recordAll ds).Calm 0 := by
  have hlater : ∀ m, t.moves.toList.getLast? = some m →
      m.pass + UInt32.ofNat (n + 1) = t.beginPass.pass := by
    intro m hm
    rw [UInt32.ofNat_add, ← UInt32.add_assoc, h.last m hm]
    rfl
  have hnumber : t.moves.toList.getLast?.map Move.pass ≠ some t.beginPass.pass := by
    intro heq
    obtain ⟨m, hm, hpass⟩ := Option.map_eq_some_iff.mp heq
    have hzero : UInt32.ofNat (n + 1) = 0 := UInt32.add_eq_left.mp (hpass ▸ hlater m hm)
    exact n.succ_ne_zero ((ofNat_inj_of_lt hn (by decide)).mp hzero)
  have hnone := repeatedMoves_recordAll (t := t.beginPass) h.unrepeated hnumber hds
  cases hnews : ds.filterMap (moveOf? t.beginPass.pass) with
  | nil =>
    have hsame : t.beginPass.recordAll ds = t.beginPass := by simp [recordAll, hnews]
    rw [hsame] at hnone ⊢
    exact .inl ⟨rfl, hnone, hlater⟩
  | cons m news =>
    refine .inr ⟨hnone, fun m' hm' => ?_⟩
    have hmem : m' ∈ ds.filterMap (moveOf? t.beginPass.pass) := by
      rw [moves_recordAll, List.getLast?_append, hnews] at hm'
      rw [hnews]
      exact List.mem_of_getLast? (by simpa using hm')
    rw [pass_of_mem hmem]
    exact UInt32.add_zero _

end Trace

def Outcome.isMove : Outcome → Bool
  | .swap _ => true
  | .densitySwap => true
  | .directionSwap .. => true
  | _ => false

/-- Some outcome of the rule moves particles. -/
def CompiledRule.moves (r : CompiledRule) : Bool := r.outcomes.any Outcome.isMove

/-- Every moving rule is stamped or puts its moves off. -/
def RuleBook.ClaimsMoves (b : RuleBook) : Prop :=
  ∀ pass m, ∀ r ∈ b.rules pass m, r.moves = true → r.stamp = true ∨ r.commit ≠ .immediate

theorem CompiledRule.Sends.moves {r : CompiledRule} {id : MaterialId} {o : Outcome}
    (h : r.Sends id o) (ho : o.isMove = true) : r.moves = true := by
  have hne : o ≠ .noop := by
    rintro rfl
    cases ho
  rw [CompiledRule.moves, Array.any_eq_true']
  exact ⟨o, h.mem hne, ho⟩

theorem Deed.ByRule.moves {s : Scene} {a : Actor} {r r' : CompiledRule} {source target : Nat}
    (h : (Deed.move r' source target).ByRule s a r) : r' = r ∧ r.moves = true := by
  cases h with
  | swap _ _ hsends ho =>
    obtain rfl | ⟨p, rfl⟩ := ho
    · exact ⟨rfl, hsends.moves rfl⟩
    · exact ⟨rfl, hsends.moves rfl⟩
  | throw _ _ hsends => exact ⟨rfl, hsends.moves rfl⟩
  | pull _ _ _ _ _ _ _ hsends => exact ⟨rfl, hsends.moves rfl⟩

namespace Scene

theorem write_trace (s : Scene) (commit : Commit) (i : Nat) (id : MaterialId) :
    (s.write commit i id).trace = s.trace := by
  cases commit <;> rfl

theorem exchange_trace (s : Scene) (commit : Commit) (source target : Nat) :
    (s.exchange commit source target).trace = s.trace := by
  cases commit <;> rfl

theorem move_trace (s : Scene) (r : CompiledRule) (source target : Nat) :
    (s.move r source target).trace = s.trace.map fun t => t.record source target := by
  rw [move, record, stampMove_trace, exchange_trace]

theorem enact_trace (s : Scene) (d : Deed) :
    (s.enact d).trace = s.trace.map fun t => t.recordAll [d] := by
  cases d with
  | place i id => simp only [enact, put_trace, Trace.recordAll_place, Option.map_id']
  | rewrite r i id => simp only [enact, write_trace, Trace.recordAll_rewrite, Option.map_id']
  | move r source target => simp only [enact, move_trace, Trace.recordAll_move]

namespace Run

variable {b : RuleBook} {hs : Handlers} {pass : Pass} {s t : Scene} {ds : List Deed}

theorem trace (h : s.Run b hs pass ds t) : t.trace = s.trace.map fun u => u.recordAll ds := by
  induction h with
  | nil => simp [Trace.recordAll_nil]
  | quiet _ ha ih => rw [ha.trace, ih]
  | rule _ _ _ _ ih =>
    rw [enact_trace, ih, Option.map_map]
    simp only [Function.comp_def, Trace.recordAll_append]
  | place _ _ _ _ _ _ _ ih =>
    rw [enact_trace, ih, Option.map_map]
    simp only [Function.comp_def, Trace.recordAll_append]

theorem names (h : s.Run b hs pass ds t) : ∀ d ∈ ds, s.Names d := by
  refine h.forall_deeds ?_ ?_
  · intro u a r d hsize hst _ hd
    exact SameSize.names hsize (names_of_byRule hst hd)
  · intro u i id hsize hi
    exact SameSize.names (d := .place i id) hsize hi

/-- If moving rules claim their moves, every move claims the cell it lands on. -/
theorem claims_target (h : s.Run b hs pass ds t) (hb : b.ClaimsMoves) :
    ∀ d ∈ ds, ∀ r source target, d = .move r source target → d.Claims target := by
  refine h.forall_deeds ?_ ?_
  · rintro u a r _ - - hr hd r' source target rfl
    obtain ⟨rfl, hmoves⟩ := hd.moves
    exact .inl ⟨rfl, hb _ _ _ hr hmoves⟩
  · intro u i id _ _ r source target heq
    cases heq

end Run

theorem apply_trace (s : Scene) (w : Write) : (s.apply w).2.trace = s.trace := by
  cases w with
  | set i id => rfl
  | exchange source target moving displaced =>
    simp only [apply]
    split_ifs <;> rfl

theorem land_trace (ws : List Write) (s : Scene) : (s.land ws).trace = s.trace := by
  induction ws generalizing s with
  | nil => rfl
  | cons w ws ih => rw [land_cons, ih, apply_trace]

theorem flushPass_trace (s : Scene) : s.flushPass.2.trace = s.trace := by
  rw [flushPass_snd, land_trace]
  rfl

theorem flushTick_trace (s : Scene) : s.flushTick.2.trace = s.trace := by
  rw [flushTick_snd, land_trace]
  rfl

theorem runPass_trace (b : RuleBook) (hs : Handlers) (pass : Pass) (s : Scene) :
    (Scan.runPass b hs pass s).trace
      = s.trace.map fun t => t.beginPass.recordAll (Scan.passDeeds b hs pass s) := by
  rw [Scan.runPass_eq, (alike_countWritten _).trace, flushPass_trace,
    (Scan.scan_run b hs pass s).trace, beginPass, Option.map_map]
  rfl

theorem tick_trace (b : RuleBook) (hs : Handlers) (s : Scene) :
    (World.tick b hs s).trace = (Scan.runPass b hs .falling
      (Scan.runPass b hs .rising (World.beginTick s))).trace := by
  have hactivity : ∀ t, (World.updateActivity b t).trace = t.trace := fun _ => rfl
  rw [tick_eq, hactivity, (alike_countWritten _).trace, flushTick_trace]
  rfl

variable {b : RuleBook} {s : Scene} {t : Trace} {n : Nat}

theorem runPass_calm (hsound : s.Sound) (hb : b.ClaimsMoves) (hs : Handlers) (pass : Pass)
    (ht : s.trace = some t) (hcalm : t.Calm n) (hn : n + 1 < UInt32.size) :
    ∃ u, (Scan.runPass b hs pass s).trace = some u ∧
      ((u.moves = t.moves ∧ u.Calm (n + 1)) ∨ u.Calm 0) := by
  have hrun := Scan.scan_run b hs pass s
  refine ⟨_, (runPass_trace b hs pass s).trans (congrArg (Option.map _) ht), hcalm.pass hn
    (Trace.once_of_respectful _ (hrun.respectful hsound.beginPass) ?_ ?_)⟩
  · intro r source target hmem
    exact hrun.claims_target hb _ hmem r source target rfl
  · intro r source target hmem
    obtain ⟨hsource, htarget⟩ := hrun.names _ hmem
    exact ⟨hsound.word hsource, hsound.word htarget⟩

theorem tick_calm (hsound : s.Sound) (hb : b.ClaimsMoves) (hs : Handlers) (ht : s.trace = some t)
    (hcalm : t.Calm n) (hn : n + 2 < UInt32.size) : ∃ u, (World.tick b hs s).trace = some u ∧
      ((u.moves = t.moves ∧ u.Calm (n + 2)) ∨ ∃ k ≤ 1, u.Calm k) := by
  have hbegun := hsound.beginTick
  obtain ⟨t', ht', hrising⟩ := runPass_calm hbegun hb hs .rising ht hcalm (Nat.lt_of_succ_lt hn)
  have hrisen := hbegun.runPass b hs .rising
  rw [tick_trace]
  rcases hrising with ⟨hsame, hcalm⟩ | hcalm
  · obtain ⟨u, hu, ⟨hsame', hcalm⟩ | hcalm⟩ := runPass_calm hrisen hb hs .falling ht' hcalm hn
    · exact ⟨u, hu, .inl ⟨hsame'.trans hsame, hcalm⟩⟩
    · exact ⟨u, hu, .inr ⟨0, Nat.zero_le 1, hcalm⟩⟩
  · obtain ⟨u, hu, ⟨-, hcalm⟩ | hcalm⟩ := runPass_calm hrisen hb hs .falling ht' hcalm (by decide)
    · exact ⟨u, hu, .inr ⟨1, le_rfl, hcalm⟩⟩
    · exact ⟨u, hu, .inr ⟨0, Nat.zero_le 1, hcalm⟩⟩

end Scene

def Command.steps : Command → Nat
  | .step => 1
  | _ => 0

namespace World

variable {b : RuleBook} {w : World}

theorem place_trace (s : Scene) (b : RuleBook) (x y : Int) (id : MaterialId) :
    (s.place b x y id).2.trace = s.trace := by
  unfold Scene.place
  split_ifs <;> rfl

theorem fillDisc_trace (w : World) (cx cy radius : Int32) (id : MaterialId) :
    (w.fillDisc cx cy radius id).2.scene.trace = w.scene.trace := by
  unfold fillDisc
  split_ifs <;> rfl

theorem moves_settle {s : Scene} {u : Trace} (hu : (settle s).trace = some u) : u.moves = #[] := by
  obtain ⟨t, -, rfl⟩ := Option.map_eq_some_iff.mp hu
  rfl

/-- What a command does to a trace. It leaves it alone, or forgets its moves, or it is a step. -/
theorem trace_obey (w : World) {command : Command} {u : Trace}
    (hu : (w.obey command).scene.trace = some u) :
    u.moves = #[] ∨ (command.steps = 0 ∧ w.scene.trace = some u) ∨ command = .step := by
  cases command with
  | set x y id => exact .inr (.inl ⟨rfl, (place_trace _ _ _ _ _).symm.trans hu⟩)
  | fillDisc cx cy radius id =>
    exact .inr (.inl ⟨rfl, (fillDisc_trace w cx cy radius id).symm.trans hu⟩)
  | step => exact .inr (.inr rfl)
  | load bytes =>
    simp only [World.obey, afterLoad_eq] at hu
    cases hload : w.load bytes with
    | error e =>
      rw [hload] at hu
      exact .inr (.inl ⟨rfl, hu⟩)
    | ok w' =>
      obtain ⟨s, -, -, rfl⟩ := load_eq_ok hload
      rw [hload] at hu
      exact .inl (moves_settle hu)
  | reset seed => exact .inl (moves_settle hu)
  | enableTrace enabled =>
    cases enabled with
    | false => cases hu
    | true =>
      simp only [World.obey, World.enableTrace, if_true, Option.some.injEq] at hu
      cases hold : w.scene.trace with
      | none =>
        rw [hold, Option.getD_none] at hu
        exact .inl (hu ▸ rfl)
      | some t =>
        rw [hold, Option.getD_some] at hu
        exact .inr (.inl ⟨rfl, congrArg some hu⟩)
  | _ => exact .inr (.inl ⟨rfl, hu⟩)

/-- After a command the trace is calm and young, or it has the moves it had before, unless a whole
lap of the pass counter has gone by since the last one. -/
theorem Rested.calm_obey (h : w.Rested b) (hb : b.ClaimsMoves) {n : Nat} (hn : n + 2 < UInt32.size)
    (hcalm : ∀ t, w.scene.trace = some t → t.Calm n) {command : Command} {u : Trace}
    (hu : (w.obey command).scene.trace = some u) : (∃ k ≤ 1, u.Calm k) ∨
      ∃ t, w.scene.trace = some t ∧ u.moves = t.moves ∧ u.Calm (n + 2 * command.steps) := by
  rcases w.trace_obey hu with hnone | ⟨hsteps, ht⟩ | rfl
  · exact .inl ⟨0, Nat.zero_le 1, Trace.calm_of_empty hnone 0⟩
  · rw [hsteps]
    exact .inr ⟨u, ht, rfl, hcalm u ht⟩
  · have htick : (tick b w.handlers w.scene).trace = some u := by
      rw [← h.book]
      simpa only [World.obey, World.step] using hu
    cases ht : w.scene.trace with
    | none =>
      have hbegun : (beginTick w.scene).trace = none := ht
      rw [Scene.tick_trace, Scene.runPass_trace, Scene.runPass_trace, hbegun] at htick
      cases htick
    | some t =>
      obtain ⟨u', hu', hcase⟩ := Scene.tick_calm h.sound hb w.handlers ht (hcalm t ht) hn
      obtain rfl : u' = u := Option.some.inj (hu'.symm.trans htick)
      rcases hcase with ⟨hsame, hcalm⟩ | hcalm
      · exact .inr ⟨t, rfl, hsame, hcalm⟩
      · exact .inl hcalm

/-- The scene as a pass of the next step finds it. -/
def beforePass (w : World) : Pass → Scene
  | .rising => beginTick w.scene
  | .falling => Scan.runPass w.book w.handlers .rising (beginTick w.scene)

/-- What is done in a pass of the next step. -/
def passDeeds (w : World) (pass : Pass) : List Deed :=
  Scan.passDeeds w.book w.handlers pass (w.beforePass pass)

theorem stepMany_trace_isSome (n : Nat) (h : w.scene.trace.isSome = true) :
    (w.stepMany n).scene.trace.isSome = true := by
  induction n generalizing w with
  | zero => exact h
  | succ n ih =>
    apply ih
    simpa only [step, Scene.tick_trace, Scene.runPass_trace, Option.isSome_map, beginTick] using h

theorem sound_beforePass (h : w.scene.Sound) (pass : Pass) : (w.beforePass pass).Sound := by
  cases pass with
  | rising => exact h.beginTick
  | falling => exact h.beginTick.runPass w.book w.handlers .rising

end World

namespace Catalog

theorem mem_of_get_foldl {ms : List (MaterialId × Archetype)} {c : Catalog} {id : MaterialId}
    {a : Archetype} (h : (ms.foldl (fun c (id, a) => c.define id a) c).get id = some a) :
    (id, a) ∈ ms ∨ c.get id = some a := by
  induction ms generalizing c with
  | nil => exact .inr h
  | cons m ms ih =>
    rcases ih h with hmem | hget
    · exact .inl (List.mem_cons_of_mem _ hmem)
    · rw [get_define] at hget
      split_ifs at hget with hid
      · subst hid
        cases hget
        exact .inl (List.mem_cons_self ..)
      · exact .inr hget

theorem mem_of_get_builtin {id : MaterialId} {a : Archetype} (h : builtin.get id = some a) :
    (id, a) ∈ Builtin.materials := by
  rcases mem_of_get_foldl h with hmem | hget
  · exact hmem
  · rw [get_empty] at hget
    cases hget

end Catalog

def Effect.isMove : Effect → Bool
  | .swap _ => true
  | .densitySwap => true
  | .directionSwap .. => true
  | _ => false

theorem Effect.isMove_of_compile {c : Catalog} {actor : Archetype} {e : Effect}
    (h : (e.compile c actor).isMove = true) : e.isMove = true := by
  cases e with
  | directionSwap reach destination => rfl
  | _ => exact h

theorem RuleBook.Reads.claimsMoves {b : RuleBook} {c : Catalog} (hb : b.Reads c)
    (h : ∀ id a, c.get id = some a → ∀ u ∈ a.rules, u.outcomes.any Effect.isMove = true →
      u.stamp = true ∨ u.commit ≠ .immediate) : b.ClaimsMoves := by
  intro pass m r hr hmoves
  obtain ⟨a, ha, u, hu, -, rfl⟩ := hb.exists_rule hr
  refine h m a ha u hu ?_
  rw [CompiledRule.moves, Array.any_eq_true'] at hmoves
  obtain ⟨o, ho, hmove⟩ := hmoves
  rw [Rule.tables_outcomes, Rule.compiledOutcomes, List.mem_toArray] at ho
  obtain ⟨e, he, rfl⟩ := List.mem_map.mp ho
  exact List.any_eq_true.mpr ⟨e, he, Effect.isMove_of_compile hmove⟩

theorem RuleBook.claimsMoves_builtin {b : RuleBook} (hb : compile Catalog.builtin = .ok b) :
    b.ClaimsMoves := by
  have hall : ∀ e ∈ Catalog.Builtin.materials, ∀ u ∈ e.2.rules,
      u.outcomes.any Effect.isMove = true → u.stamp = true ∨ u.commit ≠ .immediate := by
    decide +kernel
  refine (reads_of_compile hb).claimsMoves ?_
  intro id a ha
  exact hall _ (Catalog.mem_of_get_builtin ha)

end Sandfall
