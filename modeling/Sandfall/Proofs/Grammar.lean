import Sandfall.Proofs.Codec

/-! The grammar of saves: a header, field by field, and the cells. Reading takes the bytes apart by
positions, the grammar puts them together, and both say the same of every byte string. The layout
without a version is read where no other fits, and an error never misstates a length. -/

namespace Sandfall.Snapshot

/-! Fields behind a position. -/

theorem length_littleEndian (size n : Nat) : (littleEndian size n).length = size := by
  induction size generalizing n with
  | zero => rfl
  | succ size ih => rw [littleEndian, List.length_cons, ih]

theorem littleEndian_ofLittleEndian (bytes : List UInt8) :
    littleEndian bytes.length (ofLittleEndian bytes) = bytes := by
  induction bytes with
  | nil => rfl
  | cons b bytes ih =>
    have hcons : ofLittleEndian (b :: bytes) = b.toNat + 256 * ofLittleEndian bytes := rfl
    have hb := UInt8.toNat_lt b
    have hrest : (b.toNat + 256 * ofLittleEndian bytes) / 256 = ofLittleEndian bytes := by omega
    have hlow : UInt8.ofNat (b.toNat + 256 * ofLittleEndian bytes) = b := by
      apply UInt8.toNat_inj.mp
      rw [UInt8.toNat_ofNat']
      omega
    rw [hcons, List.length_cons, littleEndian, hrest, ih, hlow]

variable {bytes rest : List UInt8} {start size : Nat}

theorem drop_eq_field_iff {n : Nat} (hsize : 0 < size) :
    bytes.drop start = littleEndian size n ++ rest ∧ n < 256 ^ size ↔
      start + size ≤ bytes.length ∧ field bytes start size = n ∧
        bytes.drop (start + size) = rest := by
  constructor
  · rintro ⟨hdrop, hn⟩
    have hlength := congrArg List.length hdrop
    simp only [List.length_drop, List.length_append, length_littleEndian] at hlength
    refine ⟨by omega, ?_, ?_⟩
    · rw [field, hdrop, List.take_left' (length_littleEndian size n),
        ofLittleEndian_littleEndian hn]
    · rw [← List.drop_drop, hdrop, List.drop_left' (length_littleEndian size n)]
  · rintro ⟨hlong, rfl, rfl⟩
    have htake : ((bytes.drop start).take size).length = size := by
      rw [List.length_take, List.length_drop]
      omega
    have hlt := ofLittleEndian_lt ((bytes.drop start).take size)
    have hfield := littleEndian_ofLittleEndian ((bytes.drop start).take size)
    rw [htake] at hlt hfield
    exact ⟨by rw [field, hfield, ← List.drop_drop, List.take_append_drop], hlt⟩

theorem drop_eq_word_iff {x : UInt32} : bytes.drop start = littleEndian 4 x.toNat ++ rest ↔
    start + 4 ≤ bytes.length ∧ word bytes start = x ∧ bytes.drop (start + 4) = rest := by
  have hword : field bytes start 4 = x.toNat ↔ word bytes start = x := by
    have hlt : field bytes start 4 < UInt32.size :=
      Nat.lt_of_lt_of_le (ofLittleEndian_lt _)
        (Nat.pow_le_pow_right (by decide) (List.length_take_le 4 _))
    rw [word, ← UInt32.toNat_inj, UInt32.toNat_ofNat_of_lt' hlt]
  rw [← hword, ← drop_eq_field_iff (by decide)]
  exact (and_iff_left x.toNat_lt).symm

/-! The grammar. -/

/-- A word of the header, if there is one. -/
def optional : Option UInt32 → List UInt8
  | none => []
  | some x => littleEndian 4 x.toNat

/-- The sides are not zero and fit two bytes, and there is a cell for each place. -/
structure Shaped (s : Snapshot) : Prop extends Sized s where
  wide : 0 < s.width
  tall : 0 < s.height

/-- The bytes are the save of a version, which has the fields of all versions before. -/
structure Versioned (bytes : List UInt8) (s : Snapshot) : Prop where
  shaped : s.Shaped
  version : 1 ≤ s.version ∧ s.version ≤ 4
  rng : s.rng.isSome = decide (2 ≤ s.version)
  step : s.step.isSome = decide (3 ≤ s.version)
  seed : s.seed.isSome = decide (4 ≤ s.version)
  layout : bytes = magic ++ [s.version] ++ littleEndian 2 s.width ++ littleEndian 2 s.height
    ++ optional s.rng ++ optional s.step ++ optional s.seed ++ s.cells

/-- The bytes are a save older than versions. -/
structure Legacy (bytes : List UInt8) (s : Snapshot) : Prop where
  shaped : s.Shaped
  version : s.version = 0
  fields : s.rng = none ∧ s.step = none ∧ s.seed = none
  layout : bytes = magic ++ littleEndian 2 s.width ++ littleEndian 2 s.height ++ s.cells

/-- What the bytes say; only what no version fits is older than versions. -/
def Means (bytes : List UInt8) (s : Snapshot) : Prop :=
  Versioned bytes s ∨ (Legacy bytes s ∧ ∀ t, ¬ Versioned bytes t)

theorem cellsBehind_eq_ok_iff {header width height : Nat} {cells : List MaterialId}
    (hlong : header ≤ bytes.length) : cellsBehind bytes header width height = .ok cells ↔
      0 < width ∧ 0 < height ∧ cells.length = width * height ∧ bytes.drop header = cells := by
  constructor
  · intro h
    obtain ⟨hwidth, hheight, hcells⟩ := cellsBehind_eq_ok h
    refine ⟨Nat.pos_of_ne_zero hwidth, Nat.pos_of_ne_zero hheight, hcells, ?_⟩
    simp only [cellsBehind] at h
    split_ifs at h
    exact Except.ok.inj h
  · rintro ⟨hwidth, hheight, hcells, rfl⟩
    rw [List.length_drop] at hcells
    have hexact : bytes.length = header + width * height := by omega
    simp [cellsBehind, hexact, hwidth.ne', hheight.ne']

theorem headerLength?_eq_some_iff {v : UInt8} {header : Nat} : headerLength? v = some header ↔
    (v = 1 ∧ header = 9) ∨ (v = 2 ∧ header = 13) ∨ (v = 3 ∧ header = 17) ∨
      (v = 4 ∧ header = 21) := by
  unfold headerLength?
  split_ifs <;> simp_all [eq_comm]

theorem decodeVersioned_eq_ok_iff {s : Snapshot} : decodeVersioned bytes = .ok s ↔
    bytes[4]? = some s.version ∧ ∃ header, headerLength? s.version = some header ∧
      header ≤ bytes.length ∧ field bytes 5 2 = s.width ∧ field bytes 7 2 = s.height ∧
      (if 2 ≤ s.version then some (word bytes 9) else none) = s.rng ∧
      (if 3 ≤ s.version then some (word bytes 13) else none) = s.step ∧
      (if 4 ≤ s.version then some (word bytes 17) else none) = s.seed ∧
      cellsBehind bytes header s.width s.height = .ok s.cells := by
  constructor
  · intro h
    simp only [decodeVersioned] at h
    split at h
    · cases h
    · next version hversion =>
      split at h
      · cases h
      · next header hheader =>
        by_cases hshort : bytes.length < header
        · rw [if_pos hshort] at h
          cases h
        rw [if_neg hshort] at h
        split at h
        · cases h
        · next cells hcells =>
          cases h
          exact ⟨hversion, header, hheader, Nat.le_of_not_lt hshort, rfl, rfl, rfl, rfl, rfl,
            hcells⟩
  · rintro ⟨hversion, header, hheader, hlong, hwidth, hheight, hrng, hstep, hseed, hcells⟩
    simp only [decodeVersioned, hversion, hheader, Nat.not_lt.mpr hlong, if_false, hwidth, hheight,
      hcells, hrng, hstep, hseed]

theorem decodeLegacy?_eq_some_iff {s : Snapshot} : decodeLegacy? bytes = some s ↔
    8 ≤ bytes.length ∧ s.version = 0 ∧ field bytes 4 2 = s.width ∧ field bytes 6 2 = s.height ∧
      (s.rng = none ∧ s.step = none ∧ s.seed = none) ∧
      cellsBehind bytes 8 s.width s.height = .ok s.cells := by
  constructor
  · intro h
    simp only [decodeLegacy?] at h
    split_ifs at h with hshort
    split at h
    · cases h
    · next cells hcells =>
      cases h
      exact ⟨Nat.le_of_not_lt hshort, rfl, rfl, rfl, ⟨rfl, rfl, rfl⟩, hcells⟩
  · obtain ⟨version, width, height, rng, step, seed, cells⟩ := s
    rintro ⟨hlong, rfl, hwidth, hheight, ⟨rfl, rfl, rfl⟩, hcells⟩
    simp only [decodeLegacy?, Nat.not_lt.mpr hlong, if_false, hwidth, hheight, hcells]

theorem eq_magic_append_iff :
    bytes = magic ++ rest ↔ bytes.take 4 = magic ∧ bytes.drop 4 = rest := by
  constructor
  · rintro rfl
    exact ⟨List.take_left' rfl, List.drop_left' rfl⟩
  · rintro ⟨hmagic, rfl⟩
    rw [← hmagic, List.take_append_drop]

theorem drop_eq_cons_iff {v : UInt8} :
    bytes.drop start = v :: rest ↔ bytes[start]? = some v ∧ bytes.drop (start + 1) = rest := by
  constructor
  · intro h
    refine ⟨?_, ?_⟩
    · rw [← Nat.add_zero start, ← List.getElem?_drop, h, List.getElem?_cons_zero]
    · rw [← List.drop_drop, h, List.drop_one, List.tail_cons]
  · rintro ⟨hv, rfl⟩
    obtain ⟨hin, rfl⟩ := List.getElem?_eq_some_iff.mp hv
    exact List.drop_eq_getElem_cons hin

theorem drop_eq_sides_iff {width height : Nat} :
    bytes.drop start = littleEndian 2 width ++ (littleEndian 2 height ++ rest) ∧
        width < 256 ^ 2 ∧ height < 256 ^ 2 ↔
      start + 4 ≤ bytes.length ∧ field bytes start 2 = width ∧ field bytes (start + 2) 2 = height ∧
        bytes.drop (start + 4) = rest := by
  have hsecond := @drop_eq_field_iff bytes rest (start + 2) 2 height (by decide)
  constructor
  · rintro ⟨hdrop, hwidth, hheight⟩
    obtain ⟨-, hw, hbehind⟩ := (drop_eq_field_iff (by decide)).mp ⟨hdrop, hwidth⟩
    obtain ⟨hlong, hh, hrest⟩ := hsecond.mp ⟨hbehind, hheight⟩
    exact ⟨hlong, hw, hh, hrest⟩
  · rintro ⟨hlong, hw, hh, hrest⟩
    obtain ⟨hbehind, hheight⟩ := hsecond.mpr ⟨hlong, hh, hrest⟩
    obtain ⟨hdrop, hwidth⟩ := (drop_eq_field_iff (by decide)).mpr ⟨by omega, hw, hbehind⟩
    exact ⟨hdrop, hwidth, hheight⟩

theorem drop_eq_words_iff {v : UInt8} {header : Nat} (hheader : headerLength? v = some header)
    (hlong : 9 ≤ bytes.length) {rng step seed : Option UInt32} :
    (rng.isSome = decide (2 ≤ v) ∧ step.isSome = decide (3 ≤ v) ∧ seed.isSome = decide (4 ≤ v) ∧
      bytes.drop 9 = optional rng ++ (optional step ++ (optional seed ++ rest))) ↔
    header ≤ bytes.length ∧ (if 2 ≤ v then some (word bytes 9) else none) = rng ∧
      (if 3 ≤ v then some (word bytes 13) else none) = step ∧
      (if 4 ≤ v then some (word bytes 17) else none) = seed ∧ bytes.drop header = rest := by
  -- each version leaves one choice of which words there are
  rcases headerLength?_eq_some_iff.mp hheader with
      ⟨rfl, rfl⟩ | ⟨rfl, rfl⟩ | ⟨rfl, rfl⟩ | ⟨rfl, rfl⟩ <;>
    cases rng <;> cases step <;> cases seed <;> simp [optional, drop_eq_word_iff, hlong] <;> grind

theorem shaped_iff {s : Snapshot} : s.Shaped ↔ 0 < s.width ∧ 0 < s.height ∧
    s.width < 256 ^ 2 ∧ s.height < 256 ^ 2 ∧ s.cells.length = s.width * s.height := by
  have hside : ∀ n, n < 256 ^ 2 ↔ n ≤ Config.maxDimension := fun n => Nat.lt_succ_iff
  rw [hside, hside]
  exact ⟨fun h => ⟨h.wide, h.tall, h.width, h.height, h.cells⟩,
    fun ⟨hwide, htall, hwidth, hheight, hcells⟩ => ⟨⟨hwidth, hheight, hcells⟩, hwide, htall⟩⟩

theorem exists_headerLength?_iff {v : UInt8} :
    (∃ header, headerLength? v = some header) ↔ 1 ≤ v ∧ v ≤ 4 := by
  simp only [headerLength?_eq_some_iff, exists_or, exists_and_left, exists_eq, and_true]
  simp only [UInt8.le_iff_toNat_le, ← UInt8.toNat_inj]
  change v.toNat = 1 ∨ v.toNat = 2 ∨ v.toNat = 3 ∨ v.toNat = 4 ↔ 1 ≤ v.toNat ∧ v.toNat ≤ 4
  omega

/-- The versioned reading of bytes with the marker follows the grammar. -/
theorem decodeVersioned_eq_ok_iff_versioned {s : Snapshot} (hmagic : bytes.take 4 = magic) :
    decodeVersioned bytes = .ok s ↔ Versioned bytes s := by
  rw [decodeVersioned_eq_ok_iff]
  constructor
  · rintro ⟨hversion, header, hheader, hlong, hwidth, hheight, hrng, hstep, hseed, hcells⟩
    obtain ⟨hw, hh, hlength, hbehind⟩ := (cellsBehind_eq_ok_iff hlong).mp hcells
    have hnine : 9 ≤ bytes.length := by
      rcases headerLength?_eq_some_iff.mp hheader with h | h | h | h <;> omega
    obtain ⟨hr, hst, hse, hwords⟩ :=
      (drop_eq_words_iff hheader hnine).mpr ⟨hlong, hrng, hstep, hseed, hbehind⟩
    obtain ⟨hsides, hwide, htall⟩ := drop_eq_sides_iff.mpr ⟨hnine, hwidth, hheight, hwords⟩
    refine ⟨shaped_iff.mpr ⟨hw, hh, hwide, htall, hlength⟩,
      exists_headerLength?_iff.mp ⟨header, hheader⟩, hr, hst, hse, ?_⟩
    simp only [List.append_assoc, List.singleton_append]
    exact eq_magic_append_iff.mpr ⟨hmagic, drop_eq_cons_iff.mpr ⟨hversion, hsides⟩⟩
  · rintro ⟨hshaped, hversion, hr, hst, hse, hlayout⟩
    obtain ⟨hw, hh, hwide, htall, hlength⟩ := shaped_iff.mp hshaped
    obtain ⟨header, hheader⟩ := exists_headerLength?_iff.mpr hversion
    simp only [List.append_assoc, List.singleton_append] at hlayout
    obtain ⟨hv, hsides⟩ := drop_eq_cons_iff.mp (eq_magic_append_iff.mp hlayout).2
    obtain ⟨hnine, hwidth, hheight, hwords⟩ := drop_eq_sides_iff.mp ⟨hsides, hwide, htall⟩
    obtain ⟨hlong, hrng, hstep, hseed, hbehind⟩ :=
      (drop_eq_words_iff hheader hnine).mp ⟨hr, hst, hse, hwords⟩
    exact ⟨hv, header, hheader, hlong, hwidth, hheight, hrng, hstep, hseed,
      (cellsBehind_eq_ok_iff hlong).mpr ⟨hw, hh, hlength, hbehind⟩⟩

theorem decodeLegacy?_eq_some_iff_legacy {s : Snapshot} (hmagic : bytes.take 4 = magic) :
    decodeLegacy? bytes = some s ↔ Legacy bytes s := by
  rw [decodeLegacy?_eq_some_iff]
  constructor
  · rintro ⟨hlong, hversion, hwidth, hheight, hfields, hcells⟩
    obtain ⟨hw, hh, hlength, hbehind⟩ := (cellsBehind_eq_ok_iff hlong).mp hcells
    obtain ⟨hsides, hwide, htall⟩ := drop_eq_sides_iff.mpr ⟨hlong, hwidth, hheight, hbehind⟩
    refine ⟨shaped_iff.mpr ⟨hw, hh, hwide, htall, hlength⟩, hversion, hfields, ?_⟩
    simp only [List.append_assoc]
    exact eq_magic_append_iff.mpr ⟨hmagic, hsides⟩
  · rintro ⟨hshaped, hversion, hfields, hlayout⟩
    obtain ⟨hw, hh, hwide, htall, hlength⟩ := shaped_iff.mp hshaped
    simp only [List.append_assoc] at hlayout
    obtain ⟨-, hsides⟩ := eq_magic_append_iff.mp hlayout
    obtain ⟨hlong, hwidth, hheight, hbehind⟩ := drop_eq_sides_iff.mp ⟨hsides, hwide, htall⟩
    exact ⟨hlong, hversion, hwidth, hheight, hfields,
      (cellsBehind_eq_ok_iff hlong).mpr ⟨hw, hh, hlength, hbehind⟩⟩

theorem Means.marked {s : Snapshot} (h : Means bytes s) : bytes.take 4 = magic := by
  have hmarked : ∀ rest, bytes = magic ++ rest → bytes.take 4 = magic := fun rest hbytes =>
    (eq_magic_append_iff.mp hbytes).1
  rcases h with h | ⟨h, -⟩
  · exact hmarked _ (by simpa only [List.append_assoc] using h.layout)
  · exact hmarked _ (by simpa only [List.append_assoc] using h.layout)

theorem decode_of_unmarked (h : bytes.take 4 ≠ magic) : decode bytes =
    .error (if bytes.length < 4 then .truncated 4 bytes.length else .badMagic (bytes.take 4)) := by
  unfold decode
  split_ifs <;> rfl

theorem not_short_of_marked (h : bytes.take 4 = magic) : ¬ bytes.length < 4 := by
  have hlength := congrArg List.length h
  rw [List.length_take] at hlength
  change min 4 bytes.length = 4 at hlength
  omega

/-- With the marker the versioned reading comes first, and the other one only if that fails. -/
theorem decode_eq_ok_iff_of_marked {s : Snapshot} (h : bytes.take 4 = magic) :
    decode bytes = .ok s ↔ decodeVersioned bytes = .ok s ∨
      (decodeLegacy? bytes = some s ∧ ∀ t, decodeVersioned bytes ≠ .ok t) := by
  rw [decode, if_neg (not_short_of_marked h), if_neg (not_not_intro h)]
  cases decodeVersioned bytes with
  | ok t => simp
  | error e => cases decodeLegacy? bytes <;> simp

theorem decodeVersioned_of_decode_error {e : SaveError} (hmagic : bytes.take 4 = magic)
    (h : decode bytes = .error e) : decodeVersioned bytes = .error e := by
  rw [decode, if_neg (not_short_of_marked hmagic), if_neg (not_not_intro hmagic)] at h
  cases hversioned : decodeVersioned bytes with
  | ok t =>
    rw [hversioned] at h
    cases h
  | error e' =>
    rw [hversioned] at h
    cases hlegacy : decodeLegacy? bytes with
    | some s =>
      rw [hlegacy] at h
      cases h
    | none =>
      rw [hlegacy] at h
      exact h

/-- What is read is what the bytes mean. -/
theorem decode_eq_ok_iff {s : Snapshot} : decode bytes = .ok s ↔ Means bytes s := by
  by_cases hmagic : bytes.take 4 = magic
  · simp only [decode_eq_ok_iff_of_marked hmagic, Means, ne_eq,
      decodeVersioned_eq_ok_iff_versioned hmagic, decodeLegacy?_eq_some_iff_legacy hmagic]
  · rw [decode_of_unmarked hmagic]
    exact iff_of_false nofun fun h => hmagic h.marked

end Sandfall.Snapshot

namespace Sandfall

/-- A length that the error names is too short or too long, as it says. -/
def SaveError.Honest (actual : Nat) : SaveError → Prop
  | .truncated expected found => found = actual ∧ actual < expected
  | .trailingBytes expected found => found = actual ∧ expected < actual
  | _ => True

namespace Snapshot

variable {bytes : List UInt8}

/-- The error is the one for bytes without meaning. -/
structure Blames (bytes : List UInt8) (e : SaveError) : Prop where
  short : bytes.length < 4 → e = .truncated 4 bytes.length
  unmarked : 4 ≤ bytes.length → bytes.take 4 ≠ magic → e = .badMagic (bytes.take 4)
  marked : bytes.take 4 = magic → decodeVersioned bytes = .error e
  honest : e.Honest bytes.length

theorem cellsBehind_honest {header width height : Nat} {e : SaveError}
    (h : cellsBehind bytes header width height = .error e) : e.Honest bytes.length := by
  simp only [cellsBehind] at h
  split_ifs at h with hzero hshort hlong
  · cases h
    trivial
  · cases h
    exact ⟨rfl, hshort⟩
  · cases h
    exact ⟨rfl, hlong⟩

theorem decodeVersioned_honest {e : SaveError} (h : decodeVersioned bytes = .error e) :
    e.Honest bytes.length := by
  simp only [decodeVersioned] at h
  split at h
  · next hnone =>
    cases h
    exact ⟨rfl, Nat.lt_succ_of_le (List.getElem?_eq_none_iff.mp hnone)⟩
  · split at h
    · cases h
      trivial
    · next header _ =>
      by_cases hshort : bytes.length < header
      · rw [if_pos hshort] at h
        cases h
        exact ⟨rfl, hshort⟩
      rw [if_neg hshort] at h
      split at h
      · next hcells =>
        cases h
        exact cellsBehind_honest hcells
      · cases h

theorem blames_of_decode {e : SaveError} (h : decode bytes = .error e) : Blames bytes e := by
  by_cases hmagic : bytes.take 4 = magic
  · have hversioned := decodeVersioned_of_decode_error hmagic h
    exact ⟨fun hshort => absurd hshort (not_short_of_marked hmagic),
      fun _ hunmarked => absurd hmagic hunmarked, fun _ => hversioned,
      decodeVersioned_honest hversioned⟩
  · rw [decode_of_unmarked hmagic] at h
    have he := (Except.error.inj h).symm
    split_ifs at he with hshort
    · subst he
      exact ⟨fun _ => rfl, fun hlong => absurd hshort (Nat.not_lt.mpr hlong),
        fun hmarked => absurd hmarked hmagic, ⟨rfl, hshort⟩⟩
    · subst he
      exact ⟨fun h => absurd h hshort, fun _ _ => rfl, fun hmarked => absurd hmarked hmagic,
        trivial⟩

/-- Bytes are read as what they mean by the grammar; and if they mean nothing, the error is that of
the first thing wrong, and does not misstate a length. -/
theorem decode_accepts_its_grammar (bytes : List UInt8) :
    (∀ s, decode bytes = .ok s ↔ Means bytes s) ∧
      ((∃ s, Means bytes s) ∨ ∃ e, decode bytes = .error e ∧ Blames bytes e) := by
  refine ⟨fun s => decode_eq_ok_iff, ?_⟩
  cases h : decode bytes with
  | ok s => exact .inl ⟨s, decode_eq_ok_iff.mp h⟩
  | error e => exact .inr ⟨e, rfl, blames_of_decode h⟩

end Snapshot

end Sandfall
