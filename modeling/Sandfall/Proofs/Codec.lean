import Sandfall.Proofs.History

/-! Saves. What is read from the save of a world is what was written into it, and a save that is
accepted has cells. -/

namespace Sandfall.Snapshot

theorem ofLittleEndian_littleEndian {bytes n : Nat} (h : n < 256 ^ bytes) :
    ofLittleEndian (littleEndian bytes n) = n := by
  induction bytes generalizing n with
  | zero =>
    have hzero : n = 0 := by simpa using h
    rw [hzero]
    rfl
  | succ bytes ih =>
    have hrest : n / 256 < 256 ^ bytes := by
      rw [Nat.div_lt_iff_lt_mul (by decide)]
      exact h
    have hcons : ofLittleEndian (littleEndian (bytes + 1) n)
        = (UInt8.ofNat n).toNat + 256 * ofLittleEndian (littleEndian bytes (n / 256)) := rfl
    rw [hcons, ih hrest, UInt8.toNat_ofNat']
    exact Nat.mod_add_div n 256

theorem word_littleEndian (x : UInt32) :
    UInt32.ofNat (ofLittleEndian (littleEndian 4 x.toNat)) = x := by
  rw [ofLittleEndian_littleEndian x.toNat_lt, UInt32.ofNat_toNat]

/-- A world's save is read back as it was written. -/
theorem decode_encode {width height : Nat} {rng step seed : UInt32} {cells : List MaterialId}
    (hwidth : 0 < width) (hheight : 0 < height) (hnarrow : width ≤ Config.maxDimension)
    (hshort : height ≤ Config.maxDimension) (hcells : cells.length = width * height) :
    decode (encode width height rng step seed cells)
      = .ok ⟨4, width, height, some rng, some step, some seed, cells⟩ := by
  obtain ⟨bytes, hbytes⟩ : ∃ bytes, bytes = encode width height rng step seed cells := ⟨_, rfl⟩
  have hlength : bytes.length = 21 + width * height := by
    rw [hbytes, ← hcells]
    simp [encode, magic, littleEndian]
    omega
  have hw : field bytes 5 2 = width := by
    rw [hbytes]
    have hbound : width < 256 ^ 2 := Nat.lt_succ_of_le hnarrow
    exact ofLittleEndian_littleEndian hbound
  have hh : field bytes 7 2 = height := by
    rw [hbytes]
    have hbound : height < 256 ^ 2 := Nat.lt_succ_of_le hshort
    exact ofLittleEndian_littleEndian hbound
  have hrng : word bytes 9 = rng := by
    rw [hbytes]
    exact word_littleEndian rng
  have hstep : word bytes 13 = step := by
    rw [hbytes]
    exact word_littleEndian step
  have hseed : word bytes 17 = seed := by
    rw [hbytes]
    exact word_littleEndian seed
  have hversion : bytes[4]? = some 4 := by
    rw [hbytes]
    rfl
  have hmagic : bytes.take 4 = magic := by
    rw [hbytes]
    rfl
  have hbehind : cellsBehind bytes 21 width height = .ok cells := by
    have hdrop : bytes.drop 21 = cells := by
      rw [hbytes]
      rfl
    simp [cellsBehind, hlength, hdrop, hwidth.ne', hheight.ne']
  have hheader : headerLength? 4 = some 21 := rfl
  have hversioned : decodeVersioned bytes
      = .ok ⟨4, width, height, some rng, some step, some seed, cells⟩ := by
    have hlong : ¬ bytes.length < 21 := by omega
    simp only [decodeVersioned, hversion, hheader, hlong, if_false, hw, hh, hbehind, hrng, hstep,
      hseed]
    rfl
  have hlong : ¬ bytes.length < 4 := by omega
  rw [← hbytes, decode, if_neg hlong, hmagic, if_neg (not_not_intro rfl), hversioned]

/-- What the layout of a save says of its contents: the cells are what is behind the header, and a
header of the current version has all fields. -/
structure Laid (bytes : List UInt8) (s : Snapshot) : Prop where
  cells : ∃ header, cellsBehind bytes header s.width s.height = .ok s.cells
  fields : s.version = currentVersion → ∃ rng step seed,
    s.rng = some rng ∧ s.step = some step ∧ s.seed = some seed

theorem decodeVersioned_laid {bytes : List UInt8} {s : Snapshot}
    (h : decodeVersioned bytes = .ok s) : s.Laid bytes := by
  simp only [decodeVersioned] at h
  split at h
  · cases h
  · split at h
    · cases h
    · next header _ =>
      by_cases hlen : bytes.length < header
      · rw [if_pos hlen] at h
        cases h
      rw [if_neg hlen] at h
      split at h
      · cases h
      · next hcells =>
        cases h
        refine ⟨⟨_, hcells⟩, ?_⟩
        rintro rfl
        exact ⟨_, _, _, rfl, rfl, rfl⟩

theorem decodeLegacy?_laid {bytes : List UInt8} {s : Snapshot}
    (h : decodeLegacy? bytes = some s) : s.Laid bytes := by
  simp only [decodeLegacy?] at h
  split_ifs at h
  split at h
  · cases h
  · next hcells =>
    cases h
    refine ⟨⟨_, hcells⟩, ?_⟩
    intro hversion
    cases hversion

theorem decode_laid {bytes : List UInt8} {s : Snapshot} (h : decode bytes = .ok s) :
    s.Laid bytes := by
  unfold decode at h
  split_ifs at h
  split at h
  · next hversioned =>
    cases h
    exact decodeVersioned_laid hversioned
  · split at h
    · next hlegacy =>
      cases h
      exact decodeLegacy?_laid hlegacy
    · cases h

theorem Laid.positive {bytes : List UInt8} {s : Snapshot} (h : s.Laid bytes) :
    0 < s.width ∧ 0 < s.height := by
  obtain ⟨header, hcells⟩ := h.cells
  obtain ⟨hw, hh, -⟩ := cellsBehind_eq_ok hcells
  exact ⟨Nat.pos_of_ne_zero hw, Nat.pos_of_ne_zero hh⟩

end Sandfall.Snapshot
