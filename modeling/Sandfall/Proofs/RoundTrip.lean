import Sandfall.Proofs.Grammar
import Sandfall.Proofs.Resume

/-! Save and load are inverse. A world's save is taken by any world of its book, which then holds
what was saved and saves the same bytes; and a save of the current version that is taken comes back
as it was, unless its word was zero. -/

namespace Sandfall

theorem Grid.toList_ofList {width height : Nat} {cells : List MaterialId}
    (h : cells.length = width * height) : (ofList width height cells).toList = cells := by
  apply List.ext_getElem
  · rw [length_toList, h]
    rfl
  · intro i hi hin
    have hlt : i < width * height := h ▸ hin
    rw [getElem_toList, cell_ofList hlt hin]

namespace Snapshot

/-- A save of the current version has all fields, and its bytes are what is written of them. -/
theorem Means.encode {bytes : List UInt8} {s : Snapshot} (h : Means bytes s)
    (hversion : s.version = currentVersion) : s.Shaped ∧ ∃ rng step seed, s.rng = some rng ∧
      s.step = some step ∧ s.seed = some seed ∧
        bytes = encode s.width s.height rng step seed s.cells := by
  rcases h with h | ⟨h, -⟩
  · have hall : s.rng.isSome ∧ s.step.isSome ∧ s.seed.isSome := by
      rw [h.rng, h.step, h.seed, hversion]
      decide
    obtain ⟨rng, hrng⟩ := Option.isSome_iff_exists.mp hall.1
    obtain ⟨step, hstep⟩ := Option.isSome_iff_exists.mp hall.2.1
    obtain ⟨seed, hseed⟩ := Option.isSome_iff_exists.mp hall.2.2
    have hbytes := h.layout
    rw [hrng, hstep, hseed, hversion] at hbytes
    refine ⟨h.shaped, rng, step, seed, hrng, hstep, hseed, hbytes.trans ?_⟩
    simp only [Snapshot.encode, optional, List.append_assoc, List.cons_append, List.nil_append]
  · have hzero : (0 : UInt8) = currentVersion := h.version.symm.trans hversion
    cases hzero

section

variable (width height : Nat) (rng rng' step seed : UInt32) (cells : List MaterialId)

/-- The word has four bytes of the header for its own. -/
theorem encode_of_word : encode width height rng' step seed cells
    = (encode width height rng step seed cells).take 9 ++ littleEndian 4 rng'.toNat
      ++ (encode width height rng step seed cells).drop 13 := rfl

theorem word_encode_eq_zero_iff :
    ((encode width height rng step seed cells).drop 9).take 4 = [0, 0, 0, 0] ↔ rng = 0 := by
  have hfield : ((encode width height rng step seed cells).drop 9).take 4
      = littleEndian 4 rng.toNat := rfl
  rw [hfield]
  constructor
  · intro hzero
    rw [← word_littleEndian rng, hzero]
    rfl
  · rintro rfl
    rfl

end

end Snapshot

namespace World

variable {b : RuleBook} {v w : World}

/-- A save tells cells, word, clock and seed, and nothing else. -/
theorem save_congr (hgrid : w.scene.grid = v.scene.grid) (hrandom : w.scene.random = v.scene.random)
    (hsteps : w.steps = v.steps) (hseed : w.seed = v.seed) : w.save = v.save := by
  simp only [save, width, height, hgrid, hrandom, hsteps, hseed]

theorem save_restore {s : Snapshot} (hshaped : s.Shaped) {rng step seed : UInt32}
    (hrng : s.rng = some rng) (hstep : s.step = some step) (hseed : s.seed = some seed) :
    (w.restore s).save
      = Snapshot.encode s.width s.height (Random.nonzero rng) step seed s.cells := by
  have hcells := Grid.toList_ofList hshaped.cells
  simp only [save, restore, hrng, hstep, hseed, Option.getD_some, width, height]
  exact congrArg _ hcells

/-- A world's save is taken by any world of its book, which then has the world's cells and clock and
saves the same. A save of the current version that is taken comes back the same, but for a word that
is zero, which is replaced. -/
theorem save_and_load_are_inverse {c : Catalog} (hb : RuleBook.compile c = .ok b)
    (hw : Reached b w) :
    (∀ v, Reached b v → ∃ w', w.load v.save = .ok w' ∧ w'.width = v.width ∧ w'.height = v.height ∧
      w'.scene.grid = v.scene.grid ∧ w'.scene.random = v.scene.random ∧ w'.steps = v.steps ∧
        w'.seed = v.seed ∧ w'.save = v.save) ∧
    ∀ bytes s w', Snapshot.decode bytes = .ok s → s.version = Snapshot.currentVersion →
      w.load bytes = .ok w' → w'.save =
        if (bytes.drop 9).take 4 = [0, 0, 0, 0] then
          bytes.take 9 ++ Snapshot.littleEndian 4 0x9E3779B9 ++ bytes.drop 13
        else bytes := by
  have hreads := RuleBook.reads_of_compile hb
  constructor
  · intro v hv
    have hready := hv.ready hreads
    have hsave := accepted_eq_ok_iff.mpr
      ⟨hready.decode_save hv.rested, fun id hid => hready.cells.forall_mem hid⟩
    have hload := w.load_eq v.save
    rw [hw.rested.book, hsave] at hload
    refine ⟨_, hload, rfl, rfl, ?_⟩
    have hgrid : Grid.ofList v.width v.height v.scene.grid.toList = v.scene.grid :=
      Grid.ofList_toList _
    have hrandom : Random.ofSeed v.scene.random.state = v.scene.random := by
      rw [Random.ofSeed, Random.nonzero, if_neg hready.live]
    exact ⟨hgrid, hrandom, rfl, rfl, save_congr hgrid hrandom rfl rfl⟩
  · intro bytes s w' hdecode hversion hload
    obtain ⟨hshaped, rng, step, seed, hrng, hstep, hseed, rfl⟩ :=
      (Snapshot.decode_eq_ok_iff.mp hdecode).encode hversion
    obtain ⟨-, rfl⟩ := accepted_of_load hdecode hload
    rw [save_restore hshaped hrng hstep hseed]
    simp only [Snapshot.word_encode_eq_zero_iff, Random.nonzero]
    split_ifs with hzero
    · exact Snapshot.encode_of_word ..
    · rfl

/-- A room takes the save of a smaller row, and a save whose word is zero. -/
theorem save_and_load_are_inverse_row :
    ∃ b v w, RuleBook.compile Catalog.fortress = .ok b ∧ Reached b v ∧ Reached b w ∧
      v.width ≠ w.width ∧ (∃ w', w.load v.save = .ok w' ∧ w'.save = v.save) ∧
        ∃ w', w.load (Snapshot.encode 4 1 0 9 7 [1, 2, 0, 3]) = .ok w' ∧
          w'.save = Snapshot.encode 4 1 0x9E3779B9 9 7 [1, 2, 0, 3] := by
  obtain ⟨b, hb⟩ := Catalog.compile_fortress
  have hreads := RuleBook.reads_of_compile hb
  obtain ⟨v, w, hv, hw, -, -, -, hwidth⟩ := exists_row_and_room hreads true
  obtain ⟨hback, hforth⟩ := save_and_load_are_inverse hb hw
  obtain ⟨w', hload, -, -, -, -, -, -, hsave⟩ := hback v hv
  have hdecode := @Snapshot.decode_encode 4 1 0 9 7 [1, 2, 0, 3] (by decide) (by decide) (by decide)
    (by decide) rfl
  have haccepted := accepted_eq_ok_iff.mpr ⟨hdecode, show ∀ id ∈ [1, 2, 0, 3], b.isKnown id by
    simp only [hreads.known]
    decide +kernel⟩
  have hzero := w.load_eq (Snapshot.encode 4 1 0 9 7 [1, 2, 0, 3])
  rw [hw.rested.book, haccepted] at hzero
  exact ⟨b, v, w, hb, hv, hw, hwidth, ⟨w', hload, hsave⟩, _, hzero, hforth _ _ _ hdecode rfl hzero⟩

end World

end Sandfall
