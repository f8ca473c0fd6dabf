import Sandfall.Proofs.Tables
import Sandfall.Proofs.Upkeep

/-! Conservation. A labelling sorts materials, and a book keeps it if its rewrites are made at once
and keep the labels of the cells they rewrite. Then the number of cells with each label lasts: a
rewrite keeps the label, a move exchanges two cells or is put off as an exchange, and a put-off
exchange lands whole or not at all. -/

namespace Sandfall

variable {α : Type}

namespace Grid

variable [DecidableEq α]

/-- The number of cells whose material has the label. -/
def labelled (f : MaterialId → α) (l : α) (g : Grid) : Nat :=
  g.toList.countP fun id => f id = l

variable {f : MaterialId → α} {l : α} {g : Grid} {i j : Nat}

theorem toList_set (g : Grid) (i : Nat) (id : MaterialId) :
    (g.set i id).toList = g.toList.set i id :=
  Vector.toList_setIfInBounds

theorem length_toList (g : Grid) : g.toList.length = g.size := Vector.length_toList

theorem getElem_toList (hi : i < g.toList.length) : g.toList[i] = g.cell i := by
  have hsize : i < g.width * g.height := by rwa [length_toList] at hi
  have hcell : g.toList[i] = g.cells[i] := Vector.getElem_toList hi
  have h : g.cells[i]? = some g.toList[i] := by
    rw [hcell]
    exact Vector.getElem?_eq_getElem hsize
  exact (congrArg (·.getD MaterialId.outside) h).symm

theorem labelled_set (hi : i < g.size) (id : MaterialId) :
    (g.set i id).labelled f l + (if f (g.cell i) = l then 1 else 0)
      = g.labelled f l + (if f id = l then 1 else 0) := by
  have hlt : i < g.toList.length := by rwa [length_toList]
  have hset := List.countP_set (p := fun id => f id = l) (a := id) hlt
  have hle := List.boole_getElem_le_countP (p := fun id => f id = l) hlt
  simp only [getElem_toList, decide_eq_true_eq] at hset hle
  rw [labelled, labelled, toList_set, hset]
  omega

theorem labelled_set_of_eq (hi : i < g.size) {id : MaterialId} (h : f id = f (g.cell i)) :
    (g.set i id).labelled f l = g.labelled f l := by
  have hset := labelled_set (f := f) (l := l) hi id
  rw [h] at hset
  exact Nat.add_right_cancel hset

/-- Two cells that exchange their materials, or one with itself, keep all labels. -/
theorem labelled_exchange (hi : i < g.size) (hj : j < g.size) :
    ((g.set j (g.cell i)).set i (g.cell j)).labelled f l = g.labelled f l := by
  have hkeep : (g.set j (g.cell i)).cell i = g.cell i := by
    by_cases hij : j = i
    · rw [hij, cell_set_self hi]
    · rw [cell_set_of_ne g hij]
  have hfirst := labelled_set (f := f) (l := l) hj (g.cell i)
  have hsecond := labelled_set (f := f) (l := l) (g := g.set j (g.cell i)) hi (g.cell j)
  rw [hkeep] at hsecond
  omega

end Grid

namespace Outcome

def isTransform : Outcome → Bool
  | .transform .. => true
  | _ => false

def this? : Outcome → Option MaterialId
  | .transform this _ _ _ => this
  | _ => none

def other? : Outcome → Option MaterialId
  | .transform _ other _ _ => other
  | _ => none

end Outcome

/-- Some outcome of the rule rewrites cells. -/
def CompiledRule.transforms (r : CompiledRule) : Bool := r.outcomes.any Outcome.isTransform

theorem CompiledRule.transforms_of_mem {r : CompiledRule} {o : Outcome} (h : o ∈ r.outcomes)
    (ho : o.isTransform) : r.transforms = true := by
  rw [transforms, Array.any_eq_true']
  exact ⟨o, h, ho⟩

theorem Rule.tables_transforms (c : Catalog) (actor : Archetype) (r : Rule) :
    (r.tables c actor).transforms = r.outcomes.any fun e => (e.compile c actor).isTransform := by
  simp [CompiledRule.transforms, tables_outcomes, compiledOutcomes, Function.comp_def]

/-- The rule of a material rewrites at once, and cells keep their labels. -/
structure CompiledRule.KeepsLabels (r : CompiledRule) (f : MaterialId → α) (m : MaterialId) :
    Prop where
  immediate : r.commit = .immediate
  candidate : ∀ id o, r.Sends id o → ∀ into ∈ o.other?, f into = f id
  actor : ∀ o ∈ r.outcomes, ∀ this ∈ o.this?, f this = f m

namespace RuleBook

def KeepsLabels (b : RuleBook) (f : MaterialId → α) : Prop :=
  ∀ pass m, ∀ r ∈ b.rules pass m, r.transforms = true → r.KeepsLabels f m

/-- The book rewrites nothing; all it does is to move. -/
def OnlyMoves (b : RuleBook) : Prop := ∀ pass m, ∀ r ∈ b.rules pass m, r.transforms = false

theorem OnlyMoves.keepsLabels {b : RuleBook} (h : b.OnlyMoves) (f : MaterialId → α) :
    b.KeepsLabels f := by
  intro pass m r hr htransforms
  rw [h pass m r hr] at htransforms
  cases htransforms

end RuleBook

theorem RuleBook.OnlyMoves.not_rewrite {b : RuleBook} (h : b.OnlyMoves) {pass : Pass} {s : Scene}
    {a : Actor} {r r' : CompiledRule} {i : Nat} {id : MaterialId} (hr : r ∈ b.rules pass a.id) :
    ¬ (Deed.rewrite r' i id).ByRule s a r := by
  intro hd
  have hsends : ∃ m this other p q, r.Sends m (.transform this other p q) := by
    cases hd with
    | candidate _ hsends => exact ⟨_, _, _, _, _, hsends⟩
    | actor hsends => exact ⟨_, _, _, _, _, hsends⟩
  obtain ⟨m, this, other, p, q, hsends⟩ := hsends
  have htransforms := CompiledRule.transforms_of_mem (hsends.mem nofun) rfl
  rw [h pass a.id r hr] at htransforms
  cases htransforms

def Write.IsExchange : Write → Prop
  | .set .. => False
  | .exchange .. => True

namespace RuleBook

variable {b : RuleBook} {hs : Handlers} {f : MaterialId → α}

/-- A rule rewrites a cell at once, and the cell keeps its label. -/
theorem KeepsLabels.rewrite (hf : b.KeepsLabels f) {pass : Pass} {s : Scene} {a : Actor}
    {r r' : CompiledRule} {i : Nat} {id : MaterialId} (ha : a.Stands s)
    (hr : r ∈ b.rules pass a.id) (hd : (Deed.rewrite r' i id).ByRule s a r) :
    r'.commit = .immediate ∧ f id = f (s.grid.cell i) := by
  cases hd with
  | candidate _ hsends =>
    have hkeeps := hf pass a.id r hr (CompiledRule.transforms_of_mem (hsends.mem nofun) rfl)
    exact ⟨hkeeps.immediate, hkeeps.candidate _ _ hsends _ rfl⟩
  | actor hsends =>
    have hmem := hsends.mem nofun
    have hkeeps := hf pass a.id r hr (CompiledRule.transforms_of_mem hmem rfl)
    rw [ha.material]
    exact ⟨hkeeps.immediate, hkeeps.actor _ hmem _ rfl⟩

/-- Without handlers the number of cells with each label lasts. -/
theorem KeepsLabels.maintains [DecidableEq α] (hf : b.KeepsLabels f)
    (hnone : ∀ id, hs.get id = none) (stock : α → Nat) :
    b.Maintains hs (fun g => ∀ l, g.labelled f l = stock l) Write.IsExchange where
  rewrite := by
    intro pass s a r r' i id _ hlabels ha hr hd
    obtain ⟨himmediate, hid⟩ := hf.rewrite ha hr hd
    have hi := Scene.names_of_byRule ha hd
    exact ⟨fun _ l => (Grid.labelled_set_of_eq hi hid).trans (hlabels l),
      fun hlater => absurd himmediate hlater⟩
  move := by
    intro pass s a r r' source target _ hlabels ha _ hd
    obtain ⟨hi, hj⟩ := Scene.names_of_byRule ha hd
    exact ⟨fun l => (Grid.labelled_exchange hi hj).trans (hlabels l), trivial⟩
  place := by
    intro s i id m h _ hget
    rw [hnone] at hget
    cases hget
  landed := fun _ hw => hw.elim
  exchanged := fun hlabels _ hi hj l => (Grid.labelled_exchange hi hj).trans (hlabels l)

end RuleBook

namespace Scene

variable [DecidableEq α]

/-- The scene has so many cells with each label, and only exchanges wait. -/
structure Stocked (f : MaterialId → α) (stock : α → Nat) (s : Scene) : Prop where
  sound : s.Sound
  pass : ∀ w ∈ s.pending.pass, w.IsExchange
  tick : ∀ w ∈ s.pending.tick, w.IsExchange
  labels : ∀ l, s.grid.labelled f l = stock l

variable {f : MaterialId → α} {stock : α → Nat} {s : Scene}

theorem Stocked.upholds (h : s.Stocked f stock) :
    s.Upholds (fun g => ∀ l, g.labelled f l = stock l) Write.IsExchange :=
  ⟨h.sound, h.labels, h.pass, h.tick⟩

end Scene

theorem RuleBook.Reads.onlyMoves {b : RuleBook} {c : Catalog} (hb : b.Reads c)
    (h : ∀ m a, c.get m = some a → ∀ r ∈ a.rules,
      (r.outcomes.any fun e => (e.compile c a).isTransform) = false) : b.OnlyMoves := by
  intro pass m r hr
  obtain ⟨a, ha, u, hu, -, rfl⟩ := hb.exists_rule hr
  rw [Rule.tables_transforms]
  exact h m a ha u hu

/-! Two catalogs that keep labels: movers of every kind, and a fire that moves on. -/

namespace Catalog

def drifter (name : String) (commit : Commit) : Archetype where
  name
  color := 0
  rules := [{
    sampler := .offsets [(1, 0), (-1, 0)]
    samples := 2
    matchers := [⟨.ids [MaterialId.empty], 0⟩]
    outcomes := [.swap .one]
    commit }]

/-- Three drifters that land at once, after the pass and after the tick. -/
def drifters : Catalog :=
  ((empty.define 1 (drifter "now" .immediate)).define 2
    (drifter "soon" .endOfPass)).define 3 (drifter "late" .endOfTick)

theorem drifters_get {m : MaterialId} {a : Archetype} (h : drifters.get m = some a) :
    ∃ name commit, a = drifter name commit := by
  simp only [drifters, get_define, get_empty] at h
  split_ifs at h <;> cases h <;> exact ⟨_, _, rfl⟩

theorem onlyMoves_drifters {b : RuleBook} (hb : b.Reads drifters) : b.OnlyMoves := by
  refine hb.onlyMoves fun m a ha u hu => ?_
  obtain ⟨name, commit, rfl⟩ := drifters_get ha
  cases List.mem_singleton.mp hu
  rfl

theorem compile_drifters : ∃ b, RuleBook.compile drifters = .ok b := by
  apply RuleBook.exists_compile
  intro id a ha r hr
  obtain ⟨name, commit, rfl⟩ := drifters_get ha
  cases List.mem_singleton.mp hr
  rfl

/-- Beside the drifters, an ember that lights coal and turns into coal itself. -/
def embers : Catalog :=
  (drifters.define 4 {
    name := "ember"
    color := 0
    rules := [{
      sampler := .offsets [(1, 0), (-1, 0)]
      matchers := [⟨.ids [5], 0⟩]
      outcomes := [.transform (some 5) (some 4) .one .one] }] }).define 5
    { name := "coal", color := 0 }

theorem compile_embers : ∃ b, RuleBook.compile embers = .ok b := by
  apply RuleBook.exists_compile
  intro id a ha r hr
  simp only [embers, get_define] at ha
  split_ifs at ha
  · cases ha
    cases hr
  · cases ha
    cases List.mem_singleton.mp hr
    decide +kernel
  · obtain ⟨name, commit, rfl⟩ := drifters_get ha
    cases List.mem_singleton.mp hr
    rfl

/-- Ember and coal are one and the same. -/
def fuel (id : MaterialId) : MaterialId := if id = 5 then 4 else id

theorem keepsLabels_embers {b : RuleBook} (hb : b.Reads embers) : b.KeepsLabels fuel := by
  intro pass m r hr htransforms
  obtain ⟨a, ha, u, hu, -, rfl⟩ := hb.exists_rule hr
  have hv := hb.valid m a ha u hu
  simp only [embers, get_define] at ha
  split_ifs at ha with hcoal hember
  · cases ha
    cases hu
  · cases ha
    cases List.mem_singleton.mp hu
    refine ⟨rfl, ?_, ?_⟩
    · rintro id o ⟨hslot, rfl⟩ into hinto
      obtain ⟨x, hx, hwhen, e, he, hout⟩ := hv.tables_outcome hslot
      cases List.mem_singleton.mp hx
      cases he
      rw [hout] at hinto
      cases hinto
      have hid : id = 5 := by simpa [Predicate.holds] using hwhen
      rw [hid]
      rfl
    · intro o ho this hthis
      cases Array.mem_singleton.mp ho
      cases hthis
      rw [← hember]
      rfl
  · obtain ⟨name, commit, rfl⟩ := drifters_get ha
    cases List.mem_singleton.mp hu
    rw [Rule.tables_transforms] at htransforms
    cases htransforms

end Catalog

namespace World

variable [DecidableEq α]

theorem stepMany_stocked {b : RuleBook} {f : MaterialId → α} {stock : α → Nat}
    (hf : b.KeepsLabels f) (n : Nat) {w : World} (hbook : w.book = b)
    (hnone : ∀ id, w.handlers.get id = none) (h : w.scene.Stocked f stock) :
    (w.stepMany n).scene.Stocked f stock := by
  have hsteps := stepMany_upholds (hf.maintains hnone stock) n hbook rfl h.upholds
  exact ⟨hsteps.sound, hsteps.pass, hsteps.tick, hsteps.cells⟩

theorem Rested.stocked {b : RuleBook} {w : World} (h : w.Rested b) (f : MaterialId → α) :
    w.scene.Stocked f fun l => w.scene.grid.labelled f l where
  sound := h.sound
  pass := by simp [h.pending, Pending.empty]
  tick := by simp [h.pending, Pending.empty]
  labels := fun _ => rfl

def paintedRow (b : RuleBook) (cells : List (Nat × MaterialId)) : World :=
  (cells.map fun (x, id) => Command.set x 0 id).foldl obey
    ⟨b, .none, .fresh 5 1 true 7, 7, 0, false, {}⟩

theorem reached_paintedRow (b : RuleBook) (cells : List (Nat × MaterialId)) :
    Reached b (paintedRow b cells) := by
  refine Reached.obeyAll ?_ _
  exact .create (show create { width := 5, height := 1, seed := 7 } b = .ok _ from rfl)

theorem set_handlers (w : World) (x y : Int) (id : MaterialId) :
    (w.obey (.set x y id)).handlers = w.handlers := by
  simp only [obey, set]

theorem paintedRow_handlers (b : RuleBook) (cells : List (Nat × MaterialId)) (id : MaterialId) :
    (paintedRow b cells).handlers.get id = none := by
  have hpaint : ∀ w : World, w.handlers = .none →
      ((cells.map fun (x, id) => Command.set x 0 id).foldl obey w).handlers = .none := by
    induction cells with
    | nil => exact fun w hw => hw
    | cons cell cells ih => exact fun w hw => ih _ ((set_handlers w _ _ _).trans hw)
  rw [paintedRow, hpaint _ rfl]
  exact Vector.getElem_replicate _

/-- Without handlers, steps keep the number of cells with each label, if the book keeps labels. If it
only moves, they permute the cells. -/
theorem stepMany_conserves {b : RuleBook} {w : World} (hw : Reached b w)
    (hnone : ∀ id, w.handlers.get id = none) (n : Nat) :
    (∀ {α : Type} [DecidableEq α] (f : MaterialId → α), b.KeepsLabels f →
      ∀ l, (w.stepMany n).scene.grid.labelled f l = w.scene.grid.labelled f l) ∧
    (b.OnlyMoves → (w.stepMany n).scene.grid.toList.Perm w.scene.grid.toList) := by
  have hrested := hw.rested
  have hlabels : ∀ {α : Type} [DecidableEq α] (f : MaterialId → α), b.KeepsLabels f →
      ∀ l, (w.stepMany n).scene.grid.labelled f l = w.scene.grid.labelled f l := by
    intro α _ f hf
    exact (stepMany_stocked hf n hrested.book hnone (hrested.stocked f)).labels
  refine ⟨hlabels, fun hmoves => ?_⟩
  rw [List.perm_iff_count]
  exact hlabels id (hmoves.keepsLabels id)

/-- Drifters race for the cells between them, and an ember passes its glow on. -/
theorem stepMany_conserves_drifters :
    (∃ b w, RuleBook.compile Catalog.drifters = .ok b ∧ w = paintedRow b [(0, 1), (2, 2), (4, 3)] ∧
      ∀ n, (w.stepMany n).scene.grid.toList.Perm w.scene.grid.toList) ∧
    (∃ b w, RuleBook.compile Catalog.embers = .ok b ∧ w = paintedRow b [(0, 4), (1, 5), (3, 2)] ∧
      ∀ n, (w.stepMany n).scene.grid.labelled Catalog.fuel 4 = w.scene.grid.labelled Catalog.fuel 4) := by
  constructor
  · obtain ⟨b, hb⟩ := Catalog.compile_drifters
    have hmoves := Catalog.onlyMoves_drifters (RuleBook.reads_of_compile hb)
    refine ⟨b, _, hb, rfl, fun n => ?_⟩
    exact (stepMany_conserves (reached_paintedRow b _) (paintedRow_handlers b _) n).2 hmoves
  · obtain ⟨b, hb⟩ := Catalog.compile_embers
    have hkeeps := Catalog.keepsLabels_embers (RuleBook.reads_of_compile hb)
    refine ⟨b, _, hb, rfl, fun n => ?_⟩
    exact (stepMany_conserves (reached_paintedRow b _) (paintedRow_handlers b _) n).1 Catalog.fuel hkeeps 4

end World

end Sandfall
