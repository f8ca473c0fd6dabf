import Sandfall.Proofs.Frozen
import Sandfall.Proofs.Redraw
import Sandfall.Proofs.RoundTrip

/-! Loading is all or nothing. A save is refused for the reason it cannot be read, or for the first
of its cells that the book does not know, and then the world stays as it was. Otherwise all that the
save tells is taken over, nothing waits, nothing is stamped, every chunk is active, and the rules
and settings of the world stay. -/

namespace Sandfall

namespace Stamps

theorem Listed.clear_isStamped {n : Nat} {s : Stamps n} (h : s.Listed) (i : Nat) :
    s.clear.isStamped i = false := by
  have hmark : s.clear.marks[i]?.getD 0 = 0 := by
    by_contra hne
    obtain ⟨_, hlisted, -⟩ := h.clear.listed i hne
    cases hlisted
  rw [isStamped, hmark]
  rcases h.clear.parity with hp | hp <;> rw [hp] <;> rfl

end Stamps

namespace Chunks

/-- Every chunk is active, begins to count its quiet ticks anew and is to be drawn again. -/
structure Roused (c : Chunks) : Prop where
  active : ∀ i < c.count, c.isActive i = true
  sleep : ∀ i < c.count, c.sleep[i]? = some 0
  dirty : ∀ i < c.count, c.isDirty i = true

theorem roused_wakeAll (c : Chunks) : c.wakeAll.Roused where
  active _ := isActive_wakeAll
  sleep i hi := by
    obtain ⟨_, hwake⟩ := c.wakeAll_eq
    rw [hwake] at hi ⊢
    exact Vector.getElem?_replicate.trans (if_pos hi)
  dirty i hi := by
    obtain ⟨_, hwake⟩ := c.wakeAll_eq
    rw [hwake] at hi ⊢
    have hslot : i < markSlots c.count := Nat.lt_of_lt_of_le hi c.count_le_markSlots
    exact congrArg (·.getD false) (Vector.getElem?_replicate.trans (if_pos hslot))

end Chunks

namespace World

variable {b : RuleBook} {w w' : World} {bytes : List UInt8}

/-! What is refused. -/

/-- The first cell that holds a material unknown to the book. -/
structure FirstUnknown (b : RuleBook) (cells : List MaterialId) (i : Nat) (id : MaterialId) :
    Prop where
  holds : cells[i]? = some id
  unknown : b.isKnown id = false
  before : ∀ j < i, ∀ known, cells[j]? = some known → b.isKnown known = true

theorem firstUnknown?_eq_some_iff {cells : List MaterialId} {e : SaveError} :
    firstUnknown? b cells = some e ↔
      ∃ i id, FirstUnknown b cells i id ∧ e = .unknownMaterial i id := by
  simp only [firstUnknown?, Option.map_eq_some_iff, List.find?_eq_some_iff_getElem,
    Bool.not_eq_eq_eq_not, Bool.not_true, Bool.not_false, List.getElem_zipIdx, Nat.zero_add]
  constructor
  · rintro ⟨⟨id, k⟩, ⟨hunknown, i, hi, hcell, hbefore⟩, rfl⟩
    obtain ⟨rfl, rfl⟩ := Prod.mk.inj hcell
    rw [List.length_zipIdx] at hi
    refine ⟨i, _, ⟨List.getElem?_eq_getElem hi, hunknown, ?_⟩, rfl⟩
    intro j hj known hknown
    obtain ⟨_, rfl⟩ := List.getElem?_eq_some_iff.mp hknown
    exact hbefore j hj
  · rintro ⟨i, id, ⟨hholds, hunknown, hbefore⟩, rfl⟩
    obtain ⟨hi, rfl⟩ := List.getElem?_eq_some_iff.mp hholds
    refine ⟨(cells[i], i), ⟨hunknown, i, by rwa [List.length_zipIdx], rfl, ?_⟩, rfl⟩
    intro j hj
    exact hbefore j hj _ (List.getElem?_eq_getElem (Nat.lt_trans hj hi))

/-- The bytes are no save, or one with a cell that the book does not know. -/
def Refuses (b : RuleBook) (bytes : List UInt8) (e : SaveError) : Prop :=
  Snapshot.decode bytes = .error e ∨ ∃ s, Snapshot.decode bytes = .ok s ∧
    ∃ i id, FirstUnknown b s.cells i id ∧ e = .unknownMaterial i id

theorem load_eq_error_iff {e : SaveError} :
    w.load bytes = .error e ↔ Refuses w.book bytes e := by
  simp only [Refuses, ← firstUnknown?_eq_some_iff]
  unfold load
  rw [loadHere_run]
  cases Snapshot.decode bytes with
  | error e' => simp
  | ok s => cases h : firstUnknown? w.book s.cells <;> simp [h]

/-! What is taken over. -/

/-- The world has taken over all that the save tells, and has kept its rules and settings. -/
structure Restored (w : World) (s : Snapshot) (w' : World) : Prop where
  width : w'.width = s.width
  height : w'.height = s.height
  cells : w'.scene.grid.toList = s.cells
  seed : w'.seed = s.seed.getD w.seed
  word : ∀ x, s.rng = some x → w'.scene.random.state = if x = 0 then 0x9E3779B9 else x
  wordless : s.rng = none → w'.scene.random = .ofSeed w'.seed
  steps : w'.steps = s.step.getD 0
  pending : w'.scene.pending = .empty
  stamped : w'.scene.chunks.stamps.stamped = []
  unstamped : ∀ i, w'.scene.isStamped i = false
  fitting : w'.scene.chunks.width = s.width ∧ w'.scene.chunks.height = s.height
  roused : w'.scene.chunks.Roused
  book : w'.book = w.book
  handlers : w'.handlers = w.handlers
  sleeping : w'.scene.chunks.sleepingEnabled = w.scene.chunks.sleepingEnabled
  perf : w'.perfEnabled = w.perfEnabled ∧ w'.perf = w.perf

theorem restored_restore (h : w.scene.Sound) {s : Snapshot} (hs : s.Sized) :
    w.Restored s (w.restore s) := by
  obtain ⟨hwidth, hheight, hsleeping⟩ := fitChunks_size w.scene.chunks s.width s.height
  have hlisted := listed_fitChunks h.stamps s.width s.height
  have hwoken := Chunks.sameStamps_wakeAll
    (fitChunks w.scene.chunks s.width s.height).clearStamps.resetChecksums
  exact {
    width := rfl
    height := rfl
    cells := Grid.toList_ofList hs.cells
    seed := rfl
    word := by
      intro x hx
      simp only [restore, settle, hx]
      rfl
    wordless := by
      intro hnone
      simp only [restore, settle, hnone]
      rfl
    steps := rfl
    pending := rfl
    stamped := by
      obtain ⟨_, hwake⟩ :=
        (fitChunks w.scene.chunks s.width s.height).clearStamps.resetChecksums.wakeAll_eq
      exact congrArg (fun c : Chunks => c.stamps.stamped) hwake
    unstamped := by
      intro i
      exact (hwoken.isStamped i).trans (hlisted.clear_isStamped i)
    fitting := ⟨hwoken.width.trans hwidth, hwoken.height.trans hheight⟩
    roused := Chunks.roused_wakeAll _
    book := rfl
    handlers := rfl
    sleeping := (Chunks.sleepingEnabled_wakeAll _).trans hsleeping
    perf := ⟨rfl, rfl⟩ }

/-- A save that is refused, for the reason it cannot be read or for its first unknown cell, leaves
the world as it was. Any other is taken over as a whole. -/
theorem load_is_all_or_nothing (hw : Reached b w) (bytes : List UInt8) :
    (∀ e, w.load bytes = .error e ↔ Refuses b bytes e) ∧
    (∀ e, w.load bytes = .error e → w.obey (.load bytes) = w) ∧
    ∀ w', w.load bytes = .ok w' → w.obey (.load bytes) = w' ∧
      ∃ s, Snapshot.decode bytes = .ok s ∧ w.Restored s w' := by
  obtain rfl : w.book = b := hw.rested.book
  refine ⟨fun e => load_eq_error_iff, fun e he => ?_, fun w' hw' => ?_⟩
  · simp only [obey, afterLoad_eq, he]
  · obtain ⟨s, hs, hsized, rfl⟩ := load_eq_ok hw'
    refine ⟨?_, s, hs, restored_restore hw.rested.sound hsized⟩
    simp only [obey, afterLoad_eq, hw']

/-- A room refuses three bytes and a row with unknown cells, and takes a row of another size whose
word is zero. -/
theorem load_is_all_or_nothing_room :
    ∃ b w, RuleBook.compile Catalog.fortress = .ok b ∧ Reached b w ∧ w.width = 5 ∧
      w.obey (.load [1, 2, 3]) = w ∧
      w.load (Snapshot.encode 4 1 5 9 7 [1, 77, 0, 88]) = .error (.unknownMaterial 1 77) ∧
      ∃ s, w.Restored s (w.obey (.load (Snapshot.encode 4 1 0 9 7 [1, 2, 0, 3]))) ∧
        s.cells = [1, 2, 0, 3] ∧ s.rng = some 0 := by
  obtain ⟨b, hb⟩ := Catalog.compile_fortress
  have hreads := RuleBook.reads_of_compile hb
  have hw : Reached b (opened { width := 5, height := 3 } b) :=
    .create (create_eq_ok_iff.mpr ⟨rfl, rfl⟩)
  refine ⟨b, _, hb, hw, rfl, ?_, ?_, ?_⟩
  · obtain ⟨herror, hsame, -⟩ := load_is_all_or_nothing hw [1, 2, 3]
    exact hsame (.truncated 4 3) ((herror _).mpr (.inl rfl))
  · have hdecode := @Snapshot.decode_encode 4 1 5 9 7 [1, 77, 0, 88] (by decide) (by decide)
      (by decide) (by decide) rfl
    obtain ⟨herror, -, -⟩ := load_is_all_or_nothing hw (Snapshot.encode 4 1 5 9 7 [1, 77, 0, 88])
    have hwall : b.isKnown 1 = true := (hreads.known 1).trans (by decide +kernel)
    have hstray : b.isKnown 77 = false := (hreads.known 77).trans (by decide +kernel)
    refine (herror _).mpr (.inr ⟨_, hdecode, 1, 77, ⟨rfl, hstray, ?_⟩, rfl⟩)
    intro j hj known hknown
    obtain rfl : j = 0 := Nat.lt_one_iff.mp hj
    cases hknown
    exact hwall
  · have hdecode := @Snapshot.decode_encode 4 1 0 9 7 [1, 2, 0, 3] (by decide) (by decide)
      (by decide) (by decide) rfl
    have haccepted := accepted_eq_ok_iff.mpr ⟨hdecode, show ∀ id ∈ [1, 2, 0, 3], b.isKnown id by
      simp only [hreads.known]
      decide +kernel⟩
    have hload := (opened { width := 5, height := 3 } b).load_eq
      (Snapshot.encode 4 1 0 9 7 [1, 2, 0, 3])
    rw [hw.rested.book, haccepted] at hload
    obtain ⟨-, -, htake⟩ := load_is_all_or_nothing hw (Snapshot.encode 4 1 0 9 7 [1, 2, 0, 3])
    obtain ⟨hobey, s, hs, hrestored⟩ := htake _ hload
    obtain rfl := Except.ok.inj (hs.symm.trans hdecode)
    exact ⟨_, hobey ▸ hrestored, rfl, rfl⟩

end World

end Sandfall
