import Sandfall.Trace
import Mathlib.Data.List.DropRight
import Mathlib.Tactic

/-! The moves that a trace finds to repeat. Reading the moves one by one, it keeps the landing cells
of the latest run of moves that bear the same pass number. Passes come in order, also when the trace
is cleared, so such a run has all the moves read of its pass, and as long as no two moves recorded
one after the other are a lap of the pass counter apart it has no others. -/

namespace Sandfall

namespace Trace

/-- The elements, in order, that have the property together with the list of those before them. -/
def select {α : Type} (p : List α → α → Prop) [∀ before x, Decidable (p before x)] (xs : List α) :
    List α :=
  (xs.zipIdx.filter fun (x, k) => p (xs.take k) x).map Prod.fst

section select

variable {α β : Type} {p q : List α → α → Prop} [∀ before x, Decidable (p before x)]
  [∀ before x, Decidable (q before x)] {xs : List α} {x : α}

theorem select_concat : select p (xs ++ [x]) = select p xs ++ if p xs x then [x] else [] := by
  have hbefore : ∀ e ∈ xs.zipIdx, decide (p ((xs ++ [x]).take e.2) e.1)
      = decide (p (xs.take e.2) e.1) := by
    intro e he
    have hlt : e.2 < xs.length := by simpa using List.snd_lt_add_of_mem_zipIdx he
    rw [List.take_append_of_le_length hlt.le]
  rw [select, List.zipIdx_append, List.filter_append, List.map_append, List.filter_congr hbefore]
  by_cases h : p xs x <;> simp [select, h]

theorem select_congr (h : ∀ before x after, xs = before ++ x :: after → (p before x ↔ q before x)) :
    select p xs = select q xs := by
  induction xs using List.reverseRecOn with
  | nil => rfl
  | append_singleton xs x ih =>
    rw [select_concat, select_concat, ih, if_congr (h xs x [] rfl) rfl rfl]
    intro before y after heq
    exact h before y (after ++ [x]) (by rw [heq, List.append_assoc, List.cons_append])

theorem select_map {r : List β → β → Prop} [∀ before y, Decidable (r before y)] (f : α → β)
    (xs : List α) :
    select r (xs.map f) = (select (fun before x => r (before.map f) (f x)) xs).map f := by
  induction xs using List.reverseRecOn with
  | nil => rfl
  | append_singleton xs x ih =>
    rw [List.map_append, List.map_singleton, select_concat, select_concat, ih, List.map_append]
    split_ifs <;> rfl

end select

/-! What the reading of the moves finds. -/

/-- The latest of some moves, as far back as they bear the pass number. -/
def latest (pass : UInt32) (ms : List Move) : List Move := ms.rtakeWhile fun n => n.pass = pass

/-- One of the moves went into the cell that the move starts from. -/
def Lands (ms : List Move) (m : Move) : Prop := ∃ n ∈ ms, n.target = m.source

instance (ms : List Move) (m : Move) : Decidable (Lands ms m) :=
  inferInstanceAs (Decidable (∃ n ∈ ms, n.target = m.source))

/-- What is known of the moves read so far. -/
structure Repeats.Knows (r : Repeats) (ms : List Move) : Prop where
  pass : r.pass = ms.getLast?.map Move.pass
  landed : ∀ pass, r.pass = some pass →
    ∀ x, r.landed.contains x = true ↔ ∃ n ∈ latest pass ms, n.target = x
  found : r.found.toList = select (fun before m => Lands (latest m.pass before) m) ms

/-- The last move is not of the pass, so there is no run of it. -/
theorem latest_eq_nil {pass : UInt32} {ms : List Move} (h : ms.getLast?.map Move.pass ≠ some pass) :
    latest pass ms = [] := by
  rw [latest, List.rtakeWhile_eq_nil_iff]
  intro hne hlast
  rw [List.getLast?_eq_some_getLast hne] at h
  exact h (congrArg some (by simpa using hlast))

theorem latest_concat (ms : List Move) (m : Move) :
    latest m.pass (ms ++ [m]) = latest m.pass ms ++ [m] :=
  List.rtakeWhile_concat_pos _ _ _ (by simp)

theorem Repeats.Knows.read {r : Repeats} {ms : List Move} (h : r.Knows ms) (m : Move) :
    (r.read m).Knows (ms ++ [m]) := by
  -- the cells landed in, once those of another pass are dropped
  have hlanded : ∀ x, (if r.pass = some m.pass then r.landed else ∅).contains x = true
      ↔ ∃ n ∈ latest m.pass ms, n.target = x := by
    intro x
    split_ifs with hpass
    · exact h.landed m.pass hpass x
    · rw [latest_eq_nil (h.pass ▸ hpass)]
      simp
  refine ⟨by simp [Repeats.read], ?_, ?_⟩
  · rintro pass ⟨⟩ x
    rw [Repeats.read, Std.HashSet.contains_insert, Bool.or_eq_true, beq_iff_eq, hlanded,
      latest_concat]
    simp only [List.mem_append, List.mem_singleton, or_and_right, exists_or, exists_eq_left]
    exact or_comm
  · have hlands : Lands (latest m.pass ms) m
        ↔ (if r.pass = some m.pass then r.landed else ∅).contains m.source = true :=
      (hlanded m.source).symm
    rw [select_concat, ← h.found, if_congr hlands rfl rfl, Repeats.read]
    split_ifs <;> simp

theorem Repeats.Knows.foldl {r : Repeats} {ms : List Move} (h : r.Knows ms) (rest : List Move) :
    (rest.foldl Repeats.read r).Knows (ms ++ rest) := by
  induction rest generalizing r ms with
  | nil => rwa [List.append_nil]
  | cons m rest ih =>
    rw [← List.singleton_append, ← List.append_assoc]
    exact ih (h.read m)

/-- Whatever pass numbers they bear, the moves found are those out of a cell that the latest run of
moves of their number has landed in. -/
theorem repeatedMoves_eq_select (t : Trace) :
    t.repeatedMoves = select (fun before m => Lands (latest m.pass before) m) t.moves.toList := by
  have hnone : Repeats.Knows ⟨none, ∅, #[]⟩ [] := ⟨rfl, by simp, rfl⟩
  rw [repeatedMoves, ← Array.foldl_toList]
  exact (hnone.foldl t.moves.toList).found

/-! What is done with a trace. -/

inductive Tracing where
  | beginPass
  | record (source target : Nat)
  | clear
deriving DecidableEq

def follow (t : Trace) : Tracing → Trace
  | .beginPass => t.beginPass
  | .record source target => t.record source target
  | .clear => t.clear

def followAll (t : Trace) (os : List Tracing) : Trace := os.foldl follow t

/-- What a move was recorded with, and how many passes had begun by then. -/
structure Entry where
  begun : Nat
  source : Nat
  target : Nat
deriving DecidableEq

/-- The move as the trace keeps it, in words. -/
def Entry.move (e : Entry) : Move :=
  ⟨UInt32.ofNat e.begun, UInt32.ofNat e.source, UInt32.ofNat e.target⟩

/-- The move that the trace keeps of an operation, given the operations before and after it: it is
of the pass last begun, and gone if the trace has been cleared since. -/
def Tracing.kept? (before after : List Tracing) : Tracing → Option Entry
  | .record source target =>
    if .clear ∈ after then none else some ⟨before.count .beginPass, source, target⟩
  | _ => none

/-- The moves that the trace keeps of some operations. -/
def kept (os : List Tracing) : List Entry :=
  os.zipIdx.filterMap fun (o, k) => o.kept? (os.take k) (os.drop (k + 1))

/-- Only clearing takes moves away. -/
theorem Tracing.kept?_concat (before after : List Tracing) (o last : Tracing) :
    o.kept? before (after ++ [last]) = if last = .clear then none else o.kept? before after := by
  cases o with
  | record source target => by_cases h : last = .clear <;> simp [kept?, h, eq_comm]
  | _ => simp [kept?]

theorem kept_concat (os : List Tracing) (last : Tracing) :
    kept (os ++ [last]) = (if last = .clear then [] else kept os) ++ (last.kept? os []).toList := by
  have hearlier : os.zipIdx.filterMap
      (fun e => e.1.kept? ((os ++ [last]).take e.2) ((os ++ [last]).drop (e.2 + 1)))
      = if last = .clear then [] else kept os := by
    have hstep : ∀ e ∈ os.zipIdx,
        e.1.kept? ((os ++ [last]).take e.2) ((os ++ [last]).drop (e.2 + 1))
          = if last = .clear then none else e.1.kept? (os.take e.2) (os.drop (e.2 + 1)) := by
      intro e he
      have hlt : e.2 < os.length := by simpa using List.snd_lt_add_of_mem_zipIdx he
      rw [List.take_append_of_le_length hlt.le, List.drop_append_of_le_length hlt,
        Tracing.kept?_concat]
    rw [List.filterMap_congr hstep]
    split_ifs
    · simp
    · rfl
  rw [kept, List.zipIdx_append, List.filterMap_append, hearlier]
  cases hlast : last.kept? os [] <;> simp [hlast]

theorem followAll_eq (os : List Tracing) : empty.followAll os
    = ⟨UInt32.ofNat (os.count .beginPass), ((kept os).map Entry.move).toArray⟩ := by
  induction os using List.reverseRecOn with
  | nil => rfl
  | append_singleton os o ih =>
    rw [followAll, List.foldl_concat, ← followAll, ih, kept_concat, List.count_append]
    cases o with
    | beginPass => simp [Trace.follow, beginPass, Tracing.kept?]
    | record source target => simp [Trace.follow, record, Tracing.kept?, Entry.move]
    | clear => simp [Trace.follow, clear, Tracing.kept?]

/-- Moves are kept in the order of their passes. -/
structure Ordered (begun : Nat) (es : List Entry) : Prop where
  past : ∀ e ∈ es, e.begun ≤ begun
  sorted : es.Pairwise fun e e' => e.begun ≤ e'.begun

theorem ordered_kept (os : List Tracing) : Ordered (os.count .beginPass) (kept os) := by
  induction os using List.reverseRecOn with
  | nil => exact ⟨nofun, .nil⟩
  | append_singleton os o ih =>
    rw [kept_concat, List.count_append]
    cases o with
    | beginPass =>
      simp only [reduceCtorEq, if_false, Tracing.kept?, Option.toList_none, List.append_nil]
      exact ⟨fun e he => Nat.le_add_right_of_le (ih.past e he), ih.sorted⟩
    | clear => exact ⟨nofun, .nil⟩
    | record source target =>
      simp only [reduceCtorEq, if_false, Tracing.kept?, List.not_mem_nil, Option.toList_some]
      refine ⟨?_, List.pairwise_append.mpr ⟨ih.sorted, List.pairwise_singleton _ _, ?_⟩⟩
      · exact List.forall_mem_append.mpr ⟨ih.past, List.forall_mem_singleton.mpr le_rfl⟩
      · simpa using ih.past

/-! Moves of one pass. -/

/-- An earlier move of the pass was recorded into the cell that the move was recorded from. -/
def Revisits (before : List Entry) (e : Entry) : Prop :=
  ∃ n ∈ before, n.begun = e.begun ∧ n.target = e.source

/-- The same of the cells as the trace keeps them. -/
def RevisitsWord (before : List Entry) (e : Entry) : Prop :=
  ∃ n ∈ before, n.begun = e.begun ∧ n.move.target = e.move.source

instance (before : List Entry) (e : Entry) : Decidable (Revisits before e) :=
  inferInstanceAs (Decidable (∃ n ∈ before, n.begun = e.begun ∧ n.target = e.source))

instance (before : List Entry) (e : Entry) : Decidable (RevisitsWord before e) :=
  inferInstanceAs (Decidable (∃ n ∈ before, n.begun = e.begun ∧ n.move.target = e.move.source))

/-- The cells are numbers of a word, as those of a grid are. -/
def Entry.Fits (e : Entry) : Prop := e.source < UInt32.size ∧ e.target < UInt32.size

instance (e : Entry) : Decidable e.Fits :=
  inferInstanceAs (Decidable (e.source < UInt32.size ∧ e.target < UInt32.size))

theorem ofNat_inj_of_lt {m n : Nat} (hm : m < UInt32.size) (hn : n < UInt32.size) :
    UInt32.ofNat m = UInt32.ofNat n ↔ m = n := by
  rw [← UInt32.toNat_inj, UInt32.toNat_ofNat_of_lt' hm, UInt32.toNat_ofNat_of_lt' hn]

theorem revisitsWord_iff {before : List Entry} {e : Entry} (hbefore : ∀ n ∈ before, n.Fits)
    (he : e.Fits) : RevisitsWord before e ↔ Revisits before e :=
  exists_congr fun _ => and_congr_right fun hn =>
    and_congr_right fun _ => ofNat_inj_of_lt (hbefore _ hn).2 he.1

/-- Any two moves recorded one after the other are less than a lap of the pass counter apart. -/
def Paced (es : List Entry) : Prop := es.IsChain fun e e' => e'.begun < e.begun + UInt32.size

instance (es : List Entry) : Decidable (Paced es) :=
  inferInstanceAs (Decidable (es.IsChain fun e e' => e'.begun < e.begun + UInt32.size))

theorem ofNat_ne_of_paced {m n : Nat} (hlt : m < n) (hpaced : n < m + UInt32.size) :
    UInt32.ofNat m ≠ UInt32.ofNat n := by
  intro heq
  have hmod := congrArg UInt32.toNat heq
  rw [UInt32.toNat_ofNat', UInt32.toNat_ofNat'] at hmod
  unfold UInt32.size at hpaced
  omega

theorem Ordered.left {begun : Nat} {es after : List Entry} (h : Ordered begun (es ++ after)) :
    Ordered begun es where
  past e he := h.past e (List.mem_append_left _ he)
  sorted := (List.pairwise_append.mp h.sorted).1

/-- Without such laps, the latest run of moves that bear the number of a pass has just the moves of
the pass. -/
theorem Ordered.latest_eq {begun : Nat} {es : List Entry} {e : Entry}
    (h : Ordered begun (es ++ [e])) (hpaced : Paced (es ++ [e])) :
    latest e.move.pass (es.map Entry.move)
      = (es.filter fun n => n.begun = e.begun).map Entry.move := by
  induction es using List.reverseRecOn generalizing e with
  | nil => rfl
  | append_singleton es m ih =>
    have hle : m.begun ≤ e.begun := (List.pairwise_append.mp h.sorted).2.2 m (by simp) e (by simp)
    rw [List.map_append, List.map_singleton, List.filter_append, List.map_append]
    rcases hle.eq_or_lt with heq | hlt
    · have hpass : e.move.pass = m.move.pass := congrArg UInt32.ofNat heq.symm
      rw [hpass, latest_concat, ih h.left (List.isChain_append.mp hpaced).1, ← heq]
      simp
    · -- the last move is of an earlier pass, and so are those before it
      have hnear : e.begun < m.begun + UInt32.size := by
        rw [List.append_assoc] at hpaced
        exact (List.isChain_append_cons_cons.mp hpaced).2.1
      have hpass : m.move.pass ≠ e.move.pass := ofNat_ne_of_paced hlt hnear
      have hnone : es.filter (fun n => n.begun = e.begun) = [] := by
        rw [List.filter_eq_nil_iff]
        intro n hn
        have hbefore := (List.pairwise_append.mp h.left.sorted).2.2 n hn m (by simp)
        simp only [decide_eq_true_eq]
        omega
      rw [hnone, latest, List.rtakeWhile_concat_neg _ _ _ (by simpa using hpass)]
      simp [hlt.ne]

/-- The trace keeps the moves recorded since it was last cleared, in words. If no two of them, one
recorded after the other, are a lap of the pass counter apart, it finds just those that start where
an earlier one of their pass has landed. Nothing is lost by the words as long as the cells fit. -/
theorem repeated_moves_are_exact (os : List Tracing) (hpaced : Paced (kept os)) :
    (empty.followAll os).moves.toList = (kept os).map Entry.move ∧
    (empty.followAll os).repeatedMoves = (select RevisitsWord (kept os)).map Entry.move ∧
    ((∀ e ∈ kept os, e.Fits) →
      (empty.followAll os).repeatedMoves = (select Revisits (kept os)).map Entry.move) := by
  have hkept : (empty.followAll os).moves.toList = (kept os).map Entry.move := by
    rw [followAll_eq]
  have hfound : (empty.followAll os).repeatedMoves
      = (select RevisitsWord (kept os)).map Entry.move := by
    rw [repeatedMoves_eq_select, hkept, select_map]
    refine congrArg (List.map Entry.move) (select_congr fun before e after heq => ?_)
    have hordered := ordered_kept os
    rw [← List.singleton_append, ← List.append_assoc] at heq
    unfold Paced at hpaced
    rw [heq] at hordered hpaced
    rw [hordered.left.latest_eq (List.isChain_append.mp hpaced).1]
    simp [Lands, RevisitsWord, and_assoc]
  refine ⟨hkept, hfound, fun hfits => ?_⟩
  rw [hfound]
  refine congrArg (List.map Entry.move) (select_congr fun before e after heq => ?_)
  rw [heq, List.forall_mem_append, List.forall_mem_cons] at hfits
  exact revisitsWord_iff hfits.1 hfits.2.1

/-- A particle moves twice in the first pass; what moves in the second one has been dropped. -/
theorem repeated_moves_are_exact_twice : (empty.followAll [.beginPass, .record 1 2, .clear,
    .record 7 3, .record 3 4, .beginPass, .record 4 5]).repeatedMoves = [⟨1, 3, 4⟩] :=
  ((repeated_moves_are_exact _ (by decide)).2.2 (by decide)).trans (by decide)

theorem kept_replicate_beginPass (os : List Tracing) (n : Nat) :
    kept (os ++ List.replicate n .beginPass) = kept os := by
  induction n with
  | zero => rw [List.replicate_zero, List.append_nil]
  | succ n ih =>
    rw [List.replicate_succ', ← List.append_assoc, kept_concat, ih]
    exact List.append_nil _

/-- A particle moves, and a whole lap of the pass counter later one leaves the cell it went into. -/
def lap : List Tracing :=
  [.beginPass, .record 1 2] ++ List.replicate UInt32.size .beginPass ++ [.record 2 3]

theorem kept_lap : kept lap = [⟨1, 1, 2⟩, ⟨UInt32.size + 1, 2, 3⟩] := by
  have hcount : List.count Tracing.beginPass
      ([.beginPass, .record 1 2] ++ List.replicate UInt32.size .beginPass) = UInt32.size + 1 := by
    rw [List.count_append, List.count_replicate_self]
    exact Nat.add_comm _ _
  unfold lap
  rw [kept_concat, kept_replicate_beginPass, Tracing.kept?, hcount]
  rfl

/-- A particle moves into a cell whose number is not one of a word, and one leaves another cell. -/
def afar : List Tracing := [.record 0 (UInt32.size + 1), .record 1 2]

/-- After a lap of the pass counter the trace takes a move of another pass for a repeated one, and a
cell that does not fit for another cell. -/
theorem repeatedMoves_lap :
    (select Revisits (kept lap) = [] ∧ (empty.followAll lap).repeatedMoves = [⟨1, 2, 3⟩]) ∧
      select Revisits (kept afar) = [] ∧ (empty.followAll afar).repeatedMoves = [⟨0, 1, 2⟩] := by
  have hmoves : (empty.followAll lap).moves.toList = [⟨1, 1, 2⟩, ⟨1, 2, 3⟩] := by
    rw [followAll_eq, kept_lap]
    rfl
  rw [repeatedMoves_eq_select, repeatedMoves_eq_select, hmoves, kept_lap]
  decide +kernel

end Trace

end Sandfall
