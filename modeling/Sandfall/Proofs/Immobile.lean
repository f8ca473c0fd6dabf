import Sandfall.Proofs.Conservation
import Sandfall.Proofs.Faithful
import Sandfall.Proofs.Traced
import Sandfall.Proofs.Upkeep

/-! Immobile materials stay where they are. A rule moves mobile things only, and an exchange that was
put off lands only on the materials it was decided for, so nothing that is exchanged is immobile. A
material that is neither rewritten nor made then keeps its cells. -/

namespace Sandfall

def RuleBook.Mobile (b : RuleBook) (x : MaterialId × MaterialId) : Prop :=
  b.isImmobile x.1 = false ∧ b.isImmobile x.2 = false

/-- What a deed exchanges at once: what moves, and what it displaces. -/
def Deed.trades (s : Scene) : Deed → List (MaterialId × MaterialId)
  | .move r source target =>
    if r.commit = .immediate then [(s.grid.cell source, s.grid.cell target)] else []
  | _ => []

/-- What a put-off write exchanges when it lands. -/
def Write.trades (s : Scene) : Write → List (MaterialId × MaterialId)
  | .exchange source target moving displaced =>
    if s.grid.cell source.toNat = moving ∧ s.grid.cell target.toNat = displaced then
      [(s.grid.cell source.toNat, s.grid.cell target.toNat)]
    else []
  | .set .. => []

def foldTrades {α : Type} (step : Scene → α → Scene)
    (trades : Scene → α → List (MaterialId × MaterialId)) :
    Scene → List α → List (MaterialId × MaterialId)
  | _, [] => []
  | s, x :: xs => trades s x ++ foldTrades step trades (step s x) xs

theorem foldTrades_append {α : Type} (step : Scene → α → Scene)
    (trades : Scene → α → List (MaterialId × MaterialId)) (s : Scene) (xs ys : List α) :
    foldTrades step trades s (xs ++ ys)
      = foldTrades step trades s xs ++ foldTrades step trades (xs.foldl step s) ys := by
  induction xs generalizing s with
  | nil => rfl
  | cons x xs ih => simp [foldTrades, ih]

namespace Scene

def enactAll (s : Scene) (ds : List Deed) : Scene := ds.foldl enact s

/-- What some deeds exchange at once, each at its moment. -/
def dealt (s : Scene) (ds : List Deed) : List (MaterialId × MaterialId) :=
  foldTrades enact (fun s d => d.trades s) s ds

/-- What some put-off writes exchange as they land, each at its moment. -/
def landed (s : Scene) (ws : List Write) : List (MaterialId × MaterialId) :=
  foldTrades (fun s w => (s.apply w).2) (fun s w => w.trades s) s ws

end Scene

/-- Everything that the next step exchanges: in its passes, when their writes land, and when those of
the tick land. -/
def World.trades (w : World) : List (MaterialId × MaterialId) :=
  let inPass (pass : Pass) :=
    let scanned := Scan.scan w.book w.handlers pass (w.beforePass pass)
    (w.beforePass pass).beginPass.dealt (w.passDeeds pass)
      ++ scanned.dropPass.landed scanned.pending.pass.toList
  let passed := Scene.afterPasses w.book w.handlers w.scene
  inPass .rising ++ inPass .falling ++ passed.dropTick.landed passed.pending.tick.toList

/-! Rules move mobile things. -/

theorem CompiledRule.WellFormed.mobile_of_sends {b : RuleBook} {id m : MaterialId}
    {r : CompiledRule} {o : Outcome} (h : r.WellFormed b id) (ho : r.Sends m o)
    (hmoves : o.movesCandidate = true) : b.isImmobile m = false := by
  by_contra himmobile
  rcases h.immobile m (by simpa using himmobile) with hno | hstays
  · exact ho.1 hno
  · rw [ho.2, hmoves] at hstays
    cases hstays

theorem Deed.ByRule.mobile {b : RuleBook} {s : Scene} {a : Actor} {r r' : CompiledRule}
    {source target : Nat} (h : (Deed.move r' source target).ByRule s a r) (ha : a.Stands s)
    (hr : r.WellFormed b a.id) : b.Mobile (s.grid.cell source, s.grid.cell target) := by
  cases h with
  | swap _ _ hsends ho =>
    have hout := hr.of_sends hsends
    obtain rfl | ⟨p, rfl⟩ := ho
    · exact ⟨ha.material ▸ hout, hr.mobile_of_sends hsends rfl⟩
    · exact ⟨ha.material ▸ hout.1, hr.mobile_of_sends hsends rfl⟩
  | throw _ _ hsends hreach hallow =>
    obtain ⟨-, hactor, -, hlanding⟩ := hr.of_sends hsends
    exact ⟨ha.material ▸ hactor (Int8.lt_iff_toInt_lt.mpr hreach), hlanding _ hallow⟩
  | @pull _ _ reach allow _ _ _ _ _ _ _ hsends hreach hallow =>
    obtain ⟨hne, -, -, hlanding⟩ := hr.of_sends hsends
    have hback : reach < 0 := by
      have hzero : reach.toInt ≠ 0 := fun h => hne (Int8.toInt_inj.mp h)
      rw [Int8.lt_iff_toInt_lt, Int8.toInt_zero]
      omega
    exact ⟨hr.mobile_of_sends hsends (decide_eq_true hback), hlanding _ hallow⟩

def Write.Mobile (b : RuleBook) : Write → Prop
  | .set .. => True
  | .exchange _ _ moving displaced => b.Mobile (moving, displaced)

namespace RuleBook

variable {b : RuleBook} {c : Catalog}

theorem Reads.maintains_mobile (hb : b.Reads c) (hs : Handlers) :
    b.Maintains hs (fun _ => True) (Write.Mobile b) where
  rewrite := fun _ _ _ _ _ => ⟨fun _ => trivial, fun _ => trivial⟩
  move := fun _ _ ha hr hd => ⟨trivial, hd.mobile ha (hb.wellFormed hr)⟩
  place := fun _ _ _ _ _ => trivial
  landed := fun _ _ _ => trivial
  exchanged := fun _ _ _ _ => trivial

end RuleBook

namespace Scene

variable {b : RuleBook} {c : Catalog} {hs : Handlers} {pass : Pass} {s t : Scene} {ds : List Deed}

/-- Deeds read and change only what such scenes have in common. -/
theorem Alike.enact (h : s.Alike t) (d : Deed) : (s.enact d).Alike (t.enact d) := by
  obtain ⟨g, ch, p, _, tr, _, _⟩ := s
  obtain ⟨_, _, _, _, _, _, _⟩ := t
  obtain ⟨hg, hc, hp, ht⟩ := h
  simp only at hg hc hp ht
  subst hg hc hp ht
  cases d with
  | place i id => exact ⟨rfl, rfl, rfl, rfl⟩
  | rewrite r i id =>
    simp only [Scene.enact, write]
    cases r.commit <;> exact ⟨rfl, rfl, rfl, rfl⟩
  | move r source target =>
    simp only [Scene.enact, move, stampMove, exchange, record]
    cases r.commit <;> cases r.stamp <;> exact ⟨rfl, rfl, rfl, rfl⟩

theorem Run.enactAll (h : s.Run b hs pass ds t) : (s.enactAll ds).Alike t := by
  induction h with
  | nil => exact alike_refl _
  | quiet _ ha ih => exact ih.trans ha
  | rule _ _ _ _ ih =>
    simp only [Scene.enactAll, List.foldl_append, List.foldl_cons, List.foldl_nil]
    exact ih.enact _
  | place _ _ _ _ _ _ _ ih =>
    simp only [Scene.enactAll, List.foldl_append, List.foldl_cons, List.foldl_nil]
    exact ih.enact _

theorem dealt_append (s : Scene) (ds es : List Deed) :
    s.dealt (ds ++ es) = s.dealt ds ++ (s.enactAll ds).dealt es :=
  foldTrades_append ..

/-- The deeds of a run exchange mobile things only. -/
theorem Run.dealt_mobile (hb : b.Reads c) (h : s.Run b hs pass ds t) :
    ∀ x ∈ s.dealt ds, b.Mobile x := by
  induction h with
  | nil => exact fun x hx => absurd hx List.not_mem_nil
  | quiet _ _ ih => exact ih
  | @rule u ds a r d hrun hst hr hd ih =>
    rw [dealt_append]
    refine List.forall_mem_append.mpr ⟨ih, ?_⟩
    have hgrid := hrun.enactAll.grid
    cases d with
    | move r' source target =>
      have hmobile := hd.mobile hst (hb.wellFormed hr)
      rw [hgrid] at hmobile
      simp only [dealt, foldTrades, Deed.trades, List.append_nil]
      split_ifs
      · exact List.forall_mem_singleton.mpr hmobile
      · exact fun x hx => absurd hx List.not_mem_nil
    | _ => exact fun x hx => absurd hx List.not_mem_nil
  | place _ _ _ _ _ _ _ ih =>
    rw [dealt_append]
    exact List.forall_mem_append.mpr ⟨ih, fun x hx => absurd hx List.not_mem_nil⟩

theorem landed_mobile {ws : List Write} (hws : ∀ w ∈ ws, w.Mobile b) (s : Scene) :
    ∀ x ∈ s.landed ws, b.Mobile x := by
  induction ws generalizing s with
  | nil => exact fun x hx => absurd hx List.not_mem_nil
  | cons w ws ih =>
    obtain ⟨hw, hws⟩ := List.forall_mem_cons.mp hws
    refine List.forall_mem_append.mpr ⟨?_, ih hws _⟩
    cases w with
    | set i id => exact fun x hx => absurd hx List.not_mem_nil
    | exchange source target moving displaced =>
      simp only [Write.trades]
      split_ifs with hcells
      · rw [hcells.1, hcells.2]
        exact List.forall_mem_singleton.mpr hw
      · exact fun x hx => absurd hx List.not_mem_nil

end Scene

/-! A material that is neither rewritten nor made. -/

/-- No rule rewrites the material, and no rule and no handler makes it. All handlers are emitters. -/
structure RuleBook.Spares (b : RuleBook) (hs : Handlers) (m : MaterialId) : Prop where
  candidate : ∀ pass id, ∀ r ∈ b.rules pass id, ∀ o, r.Sends m o → o.other? = none
  actor : ∀ pass, ∀ r ∈ b.rules pass m, ∀ o ∈ r.outcomes, o.this? = none
  made : ∀ pass id, ∀ r ∈ b.rules pass id, ∀ o ∈ r.outcomes, o.this? ≠ some m ∧ o.other? ≠ some m
  dropped : ∀ id h, hs.get id = some h →
    ∃ material chance, h = .emitter material chance ∧ material ≠ m

namespace Grid

/-- The material fills these cells and no others. -/
def Fills (m : MaterialId) (place : Nat → Prop) (g : Grid) : Prop := ∀ i, g.cell i = m ↔ place i

variable {m id : MaterialId} {place : Nat → Prop} {g : Grid} {i j : Nat}

theorem Fills.set (h : g.Fills m place) (hi : i < g.size) (hold : g.cell i ≠ m) (hid : id ≠ m) :
    (g.set i id).Fills m place := by
  intro k
  by_cases hk : i = k
  · subst hk
    rw [cell_set_self hi]
    exact iff_of_false hid fun hplace => hold ((h i).mpr hplace)
  · rw [cell_set_of_ne g hk]
    exact h k

theorem Fills.exchange (h : g.Fills m place) (hi : i < g.size) (hj : j < g.size)
    (hmoving : g.cell i ≠ m) (hdisplaced : g.cell j ≠ m) : (g.exchange i j).Fills m place := by
  have hfirst := h.set hj hdisplaced hmoving
  -- the cells may be one and the same, so what the second holds by now is read off the first write
  refine hfirst.set hi (fun heq => ?_) hdisplaced
  exact hmoving ((h i).mpr ((hfirst i).mp heq))

end Grid

/-- The write neither rewrites a cell of the material nor brings it anywhere. -/
def Write.Avoids (m : MaterialId) (place : Nat → Prop) : Write → Prop
  | .set i id => ¬ place i.toNat ∧ id ≠ m
  | .exchange _ _ moving displaced => moving ≠ m ∧ displaced ≠ m

namespace RuleBook

variable {b : RuleBook} {c : Catalog} {hs : Handlers} {m : MaterialId}

theorem Mobile.ne {x : MaterialId × MaterialId} (h : b.Mobile x) (hm : b.isImmobile m = true) :
    x.1 ≠ m ∧ x.2 ≠ m := by
  constructor
  · rintro rfl
    rw [h.1] at hm
    cases hm
  · rintro rfl
    rw [h.2] at hm
    cases hm

/-- A rule that rewrites a cell neither finds the material there nor puts it there. -/
theorem Spares.rewrite (hspares : b.Spares hs m) {pass : Pass} {s : Scene} {a : Actor}
    {r r' : CompiledRule} {i : Nat} {id : MaterialId} (ha : a.Stands s)
    (hr : r ∈ b.rules pass a.id) (hd : (Deed.rewrite r' i id).ByRule s a r) :
    s.grid.cell i ≠ m ∧ id ≠ m := by
  cases hd with
  | candidate _ hsends =>
    constructor
    · intro hcell
      rw [hcell] at hsends
      cases hspares.candidate _ _ r hr _ hsends
    · rintro rfl
      exact (hspares.made _ _ r hr _ (hsends.mem nofun)).2 rfl
  | actor hsends =>
    have hmem := hsends.mem nofun
    constructor
    · intro hcell
      rw [ha.material] at hcell
      subst hcell
      cases hspares.actor _ r hr _ hmem
    · rintro rfl
      exact (hspares.made _ _ r hr _ hmem).1 rfl

theorem Spares.maintains_fills (hspares : b.Spares hs m) (hb : b.Reads c)
    (hm : b.isImmobile m = true) (hempty : m ≠ MaterialId.empty) (place : Nat → Prop) :
    b.Maintains hs (Grid.Fills m place) (Write.Avoids m place) where
  rewrite := by
    intro pass s a r r' i id hsound hfills ha hr hd
    obtain ⟨hold, hid⟩ := hspares.rewrite ha hr hd
    have hi := Scene.names_of_byRule ha hd
    refine ⟨fun _ => hfills.set hi hold hid, fun _ => ⟨?_, hid⟩⟩
    rw [hsound.word hi]
    exact fun hplace => hold ((hfills i).mpr hplace)
  move := by
    intro pass s a r r' source target _ hfills ha hr hd
    obtain ⟨hmoving, hdisplaced⟩ := (hd.mobile ha (hb.wellFormed hr)).ne hm
    obtain ⟨hi, hj⟩ := Scene.names_of_byRule ha hd
    exact ⟨hfills.exchange hi hj hmoving hdisplaced, hmoving, hdisplaced⟩
  place := by
    intro s i id k h hfills hget hi _ hmay
    obtain ⟨material, chance, rfl, hne⟩ := hspares.dropped k h hget
    obtain ⟨rfl, hcell⟩ := hmay
    refine hfills.set hi ?_ hne
    rw [hcell]
    exact hempty.symm
  landed := by
    intro g i id hfills havoids hi
    exact hfills.set hi (fun hcell => havoids.1 ((hfills _).mp hcell)) havoids.2
  exchanged := by
    intro g source target hfills havoids hi hj
    exact hfills.exchange hi hj havoids.1 havoids.2

end RuleBook

namespace Catalog

theorem Reached.get_emptyId {c : Catalog} (h : c.Reached) : c.get MaterialId.empty = none := by
  induction h with
  | empty => exact get_empty _
  | builtin =>
    have hids : ∀ e ∈ Builtin.materials, e.1 ≠ MaterialId.empty := by decide +kernel
    cases hget : Catalog.builtin.get MaterialId.empty with
    | none => rfl
    | some a => exact absurd rfl (hids _ (mem_of_get_builtin hget))
  | @insert c d id a _ h ih =>
    unfold Catalog.insert at h
    split_ifs at h with hreserved
    cases h
    push Not at hreserved
    rw [get_define, if_neg hreserved.1, ih]

end Catalog

namespace World

variable {b : RuleBook} {w : World}

theorem Rested.trades_mobile {c : Catalog} (hb : b.Reads c) (h : w.Rested b) :
    ∀ x ∈ w.trades, b.Mobile x := by
  obtain rfl := h.book
  have hmaintains := hb.maintains_mobile w.handlers
  have hrest := h.upholds (P := fun _ => True) trivial (Write.Mobile w.book)
  have hbegin := hrest.beginTick
  have hpass : ∀ pass, (w.beforePass pass).Upholds (fun _ => True) (Write.Mobile w.book) := by
    intro pass
    cases pass with
    | rising => exact hbegin
    | falling => exact hbegin.runPass hmaintains .rising
  have hdealt : ∀ pass, ∀ x ∈ (w.beforePass pass).beginPass.dealt (w.passDeeds pass),
      w.book.Mobile x := fun pass => (Scan.scan_run _ _ _ _).dealt_mobile hb
  have hflush : ∀ pass v,
      v ∈ (Scan.scan w.book w.handlers pass (w.beforePass pass)).pending.pass.toList →
        v.Mobile w.book := by
    intro pass v hv
    exact ((hpass pass).scan hmaintains pass).pass v (Array.mem_toList_iff.mp hv)
  have htick : ∀ v ∈ (Scene.afterPasses w.book w.handlers w.scene).pending.tick.toList,
      v.Mobile w.book := by
    intro v hv
    exact (hrest.afterPasses hmaintains).tick v (Array.mem_toList_iff.mp hv)
  intro x hx
  simp only [trades, List.mem_append] at hx
  rcases hx with ((hx | hx) | hx | hx) | hx
  · exact hdealt .rising x hx
  · exact Scene.landed_mobile (hflush .rising) _ x hx
  · exact hdealt .falling x hx
  · exact Scene.landed_mobile (hflush .falling) _ x hx
  · exact Scene.landed_mobile htick _ x hx

theorem Rested.stepMany_fills {c : Catalog} {m : MaterialId} {place : Nat → Prop}
    (hb : b.Reads c) (hm : b.isImmobile m = true) (hempty : m ≠ MaterialId.empty) (n : Nat)
    (h : w.Rested b) (hspares : b.Spares w.handlers m) (hfills : w.scene.grid.Fills m place) :
    (w.stepMany n).scene.grid.Fills m place := by
  have hmaintains := hspares.maintains_fills hb hm hempty place
  exact (stepMany_upholds hmaintains n h.book rfl (h.upholds hfills _)).cells

end World

/-! A catalog with a wall among movers of every kind, a fire and a spring. -/

namespace RuleBook

variable {b : RuleBook} {c : Catalog} {hs : Handlers} {m : MaterialId}

theorem Reads.spares (hb : b.Reads c)
    {ms : List (MaterialId × Archetype)} (hms : ∀ id a, c.get id = some a → (id, a) ∈ ms)
    (hcandidate : ∀ e ∈ ms, ∀ u ∈ e.2.rules, ∀ x ∈ u.matchers,
      x.when.holds c e.2 m = true → ∀ f ∈ u.outcomes[x.outcome.toNat]?,
        (f.compile c e.2).other? = none)
    (hactor : ∀ a, c.get m = some a → ∀ u ∈ a.rules, ∀ f ∈ u.outcomes,
      (f.compile c a).this? = none)
    (hmade : ∀ e ∈ ms, ∀ u ∈ e.2.rules, ∀ f ∈ u.outcomes,
      (f.compile c e.2).this? ≠ some m ∧ (f.compile c e.2).other? ≠ some m)
    (hdropped : ∀ id h, hs.get id = some h →
      ∃ material chance, h = .emitter material chance ∧ material ≠ m) : b.Spares hs m where
  candidate := by
    rintro pass id r hr o ⟨hslot, rfl⟩
    obtain ⟨a, ha, u, hu, -, rfl⟩ := hb.exists_rule hr
    obtain ⟨x, hx, hwhen, f, hf, hout⟩ := (hb.valid id a ha u hu).tables_outcome hslot
    rw [hout]
    exact hcandidate (id, a) (hms id a ha) u hu x hx hwhen f hf
  actor := by
    intro pass r hr o ho
    obtain ⟨a, ha, u, hu, -, rfl⟩ := hb.exists_rule hr
    rw [Rule.tables_outcomes, Rule.compiledOutcomes, List.mem_toArray] at ho
    obtain ⟨f, hf, rfl⟩ := List.mem_map.mp ho
    exact hactor a ha u hu f hf
  made := by
    intro pass id r hr o ho
    obtain ⟨a, ha, u, hu, -, rfl⟩ := hb.exists_rule hr
    rw [Rule.tables_outcomes, Rule.compiledOutcomes, List.mem_toArray] at ho
    obtain ⟨f, hf, rfl⟩ := List.mem_map.mp ho
    exact hmade (id, a) (hms id a ha) u hu f hf
  dropped := hdropped

end RuleBook

namespace Handlers

variable {hs : Handlers} {b : RuleBook} {key : String} {h h' : Handler} {id : MaterialId}

theorem get_set (hs : Handlers) (j : MaterialId) (h : Handler) (id : MaterialId) :
    (hs.set j h).get id = if j = id then some h else hs.get id := by
  split_ifs with hj
  · subst hj
    exact Vector.getElem_set_self (UInt8.toNat_lt j)
  · have hne : j.toNat ≠ id.toNat := fun heq => hj (UInt8.toNat_inj.mp heq)
    exact Vector.getElem_set_ne (UInt8.toNat_lt j) (UInt8.toNat_lt id) hne

theorem get_foldl_set (ids : List MaterialId) (hs : Handlers) (h : Handler) (id : MaterialId) :
    (ids.foldl (fun hs id => hs.set id h) hs).get id = if id ∈ ids then some h else hs.get id := by
  induction ids generalizing hs with
  | nil => simp
  | cons j ids ih =>
    rw [List.foldl_cons, ih, get_set]
    grind

theorem get_bind_eq (hs : Handlers) (b : RuleBook) (key : String) (h : Handler)
    (id : MaterialId) : (hs.bind b key h).get id =
      if id ≠ MaterialId.outside ∧ b.handlerKey id = some key then some h else hs.get id := by
  rw [bind, get_foldl_set]
  simp only [boundBy, List.mem_filter, MaterialId.mem_all, true_and, Bool.and_eq_true,
    decide_eq_true_iff]

theorem get_bind (hget : (hs.bind b key h).get id = some h') : h' = h ∨ hs.get id = some h' := by
  rw [get_bind_eq] at hget
  split_ifs at hget with hkey
  · exact .inl (Option.some.inj hget).symm
  · exact .inr hget

end Handlers

namespace Catalog

def insertList (c : Catalog) (ms : List (MaterialId × Archetype)) : Except CatalogError Catalog :=
  ms.foldlM (fun c (id, a) => c.insert id a) c

def defineList (c : Catalog) (ms : List (MaterialId × Archetype)) : Catalog :=
  ms.foldl (fun c (id, a) => c.define id a) c

theorem Reached.insertList {ms : List (MaterialId × Archetype)} {c d : Catalog} (hc : c.Reached)
    (h : c.insertList ms = .ok d) : d.Reached ∧ d = c.defineList ms := by
  induction ms generalizing c with
  | nil =>
    cases h
    exact ⟨hc, rfl⟩
  | cons m ms ih =>
    obtain ⟨id, a⟩ := m
    rw [Catalog.insertList, List.foldlM_cons] at h
    cases hm : c.insert id a with
    | error e =>
      simp only [hm] at h
      cases h
    | ok c' =>
      simp only [hm] at h
      have hdefine : c' = c.define id a := by
        unfold Catalog.insert at hm
        split_ifs at hm
        exact (Except.ok.inj hm).symm
      subst hdefine
      exact ih (.insert hc hm) h

/-- A wall and a spring among movers that would take any place, at once and later, and an ember that
lights coal. -/
def fortressMaterials : List (MaterialId × Archetype) :=
  let mover (commit : Commit) : Rule := {
    sampler := .radius 1 0
    samples := 3
    matchers := [⟨.always, 0⟩]
    outcomes := [.swap .one]
    commit }
  [(1, { name := "wall", color := 0, immobile := true }),
    (2, { name := "brute", color := 0, rules := [mover .immediate] }),
    (3, { name := "thief", color := 0, rules := [mover .endOfPass, mover .endOfTick] }),
    (4, { name := "spring", color := 0, immobile := true, spawner := true }),
    (5, {
      name := "ember"
      color := 0
      rules := [{
        sampler := .radius 1 0
        matchers := [⟨.ids [6], 0⟩]
        outcomes := [.transform (some 6) (some 5) .one .one] }] }),
    (6, { name := "coal", color := 0 })]

def fortress : Catalog := empty.defineList fortressMaterials

theorem reached_fortress : fortress.Reached := by
  have hok : (empty.insertList fortressMaterials).toOption.isSome = true := by decide +kernel
  cases h : empty.insertList fortressMaterials with
  | error e =>
    rw [h] at hok
    cases hok
  | ok d =>
    obtain ⟨hreached, hd⟩ := Reached.empty.insertList h
    rw [fortress, ← hd]
    exact hreached

theorem mem_of_get_fortress {id : MaterialId} {a : Archetype} (h : fortress.get id = some a) :
    (id, a) ∈ fortressMaterials := by
  rcases mem_of_get_foldl h with hmem | hget
  · exact hmem
  · rw [get_empty] at hget
    cases hget

theorem compile_fortress : ∃ b, RuleBook.compile fortress = .ok b := by
  apply RuleBook.exists_compile
  have hall : ∀ e ∈ fortressMaterials, ∀ r ∈ e.2.rules,
      Fault.ofRule? fortress e.2 r = none := by
    decide +kernel
  exact fun id a ha => hall (id, a) (mem_of_get_fortress ha)

end Catalog

namespace World

variable {b : RuleBook} {w : World}

/-- Nothing that a step exchanges is immobile at that moment: not what the deeds of a pass exchange,
which lead from its beginning to its flush, and not what the put-off writes exchange as they land.
So an immobile material that is neither rewritten nor made keeps its cells for ever. -/
theorem immobile_never_moves {c : Catalog} (hc : c.Reached) (hb : RuleBook.compile c = .ok b)
    (hw : Reached b w) :
    (∀ pass, ((w.beforePass pass).beginPass.enactAll (w.passDeeds pass)).Alike
      (Scan.scan w.book w.handlers pass (w.beforePass pass))) ∧
    (∀ x ∈ w.trades, b.isImmobile x.1 = false ∧ b.isImmobile x.2 = false) ∧
    ∀ m, b.isImmobile m = true → b.Spares w.handlers m →
      ∀ n i, (w.stepMany n).scene.grid.cell i = m ↔ w.scene.grid.cell i = m := by
  have hreads := RuleBook.reads_of_compile hb
  refine ⟨?_, hw.rested.trades_mobile hreads, ?_⟩
  · intro pass
    exact (Scan.scan_run _ _ _ _).enactAll
  · intro m hm hspares n
    have hempty : m ≠ MaterialId.empty := by
      rintro rfl
      rw [hreads.immobile, Catalog.isImmobile, hc.get_emptyId] at hm
      cases hm
    exact hw.rested.stepMany_fills hreads hm hempty n hspares fun i => Iff.rfl

/-- A wall beside a spring of brutes, with a thief, an ember and coal around. -/
theorem immobile_never_moves_fortress :
    ∃ b w, RuleBook.compile Catalog.fortress = .ok b ∧ Reached b w ∧
      w.scene.grid.toList = [4, 1, 3, 5, 6] ∧ w.handlers.get 4 = some (.emitter 2 .half) ∧
        ∀ n i, (w.stepMany n).scene.grid.cell i = 1 ↔ w.scene.grid.cell i = 1 := by
  obtain ⟨b, hb⟩ := Catalog.compile_fortress
  obtain ⟨w, hw⟩ : ∃ w, w = (paintedRow b [(0, 4), (1, 1), (2, 3), (3, 5), (4, 6)]).obey
      (.bind "spring" (.emitter 2 .half)) := ⟨_, rfl⟩
  have hreached : Reached b w := hw ▸ (reached_paintedRow b _).obey _
  have hreads := RuleBook.reads_of_compile hb
  have himmobile : b.isImmobile 1 = true := (hreads.immobile 1).trans (by decide +kernel)
  have hspares : b.Spares w.handlers 1 := by
    refine hreads.spares (fun _ _ => Catalog.mem_of_get_fortress) (by decide +kernel) ?_
      (by decide +kernel) ?_
    · intro a ha
      cases ha
      exact fun u hu => absurd hu List.not_mem_nil
    · intro id h hget
      rw [hw] at hget
      rcases Handlers.get_bind hget with rfl | hnone
      · exact ⟨2, .half, rfl, by decide⟩
      · rw [paintedRow_handlers] at hnone
        cases hnone
  have hworld : (RuleBook.compile Catalog.fortress).toOption.map (fun b =>
      (((paintedRow b [(0, 4), (1, 1), (2, 3), (3, 5), (4, 6)]).obey
          (.bind "spring" (.emitter 2 .half))).scene.grid.toList,
        ((paintedRow b [(0, 4), (1, 1), (2, 3), (3, 5), (4, 6)]).obey
          (.bind "spring" (.emitter 2 .half))).handlers.get 4))
      = some ([4, 1, 3, 5, 6], some (.emitter 2 .half)) := by
    decide +kernel
  simp only [hb, Except.toOption, Option.map_some, ← hw, Option.some.injEq, Prod.mk.injEq] at hworld
  refine ⟨b, w, hb, hreached, hworld.1, hworld.2, ?_⟩
  exact (immobile_never_moves Catalog.reached_fortress hb hreached).2.2 1 himmobile hspares

end World

end Sandfall
