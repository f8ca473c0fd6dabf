import Sandfall.Proofs.Grammar

/-! Bytes that fit two layouts. A save without a version has its sides where the others have the
version, so each of the two readings takes the header of the other one byte off. Of all damaged
copies of a save only those of one length are taken, for saves without a version; and such a save is
read as it is unless, one byte off, it is as long as a save of a version should be. -/

namespace Sandfall.Snapshot

variable {bytes whole rest : List UInt8} {start size width height : Nat}
  {rng step seed : UInt32} {cells : List MaterialId}

/-! What a reading finds in a header. -/

theorem field_eq_pair {low high : UInt8} (h : bytes.drop start = low :: high :: rest) :
    field bytes start 2 = low.toNat + 256 * high.toNat := by
  rw [field, h]
  rfl

theorem toNat_low (n : Nat) : (UInt8.ofNat n).toNat = n % 256 := UInt8.toNat_ofNat'

theorem toNat_high {n : Nat} (h : n ≤ Config.maxDimension) :
    (UInt8.ofNat (n / 256)).toNat = n / 256 := by
  have hlt : n / 256 < 256 := Nat.div_lt_of_lt_mul (Nat.lt_succ_of_le h)
  rw [toNat_low, Nat.mod_eq_of_lt hlt]

theorem headerLength?_eq_some_iff_toNat {v : UInt8} {header : Nat} :
    headerLength? v = some header ↔ (1 ≤ v.toNat ∧ v.toNat ≤ 4) ∧ header = 5 + 4 * v.toNat := by
  rw [headerLength?_eq_some_iff]
  simp only [← UInt8.toNat_inj]
  change (v.toNat = 1 ∧ _) ∨ (v.toNat = 2 ∧ _) ∨ (v.toNat = 3 ∧ _) ∨ (v.toNat = 4 ∧ _) ↔ _
  omega

theorem exists_decodeVersioned_iff : (∃ s, decodeVersioned bytes = .ok s) ↔
    ∃ v header, bytes[4]? = some v ∧ headerLength? v = some header ∧ 0 < field bytes 5 2 ∧
      0 < field bytes 7 2 ∧ bytes.length = header + field bytes 5 2 * field bytes 7 2 := by
  constructor
  · rintro ⟨s, hs⟩
    obtain ⟨hv, header, hheader, hlong, hwidth, hheight, -, -, -, hbehind⟩ :=
      decodeVersioned_eq_ok_iff.mp hs
    obtain ⟨hwide, htall, hsize, hdrop⟩ := (cellsBehind_eq_ok_iff hlong).mp hbehind
    rw [← hdrop, List.length_drop] at hsize
    rw [hwidth, hheight]
    exact ⟨_, header, hv, hheader, hwide, htall, by omega⟩
  · rintro ⟨v, header, hv, hheader, hwide, htall, hlength⟩
    have hlong : header ≤ bytes.length := hlength ▸ Nat.le_add_right _ _
    have hsize : (bytes.drop header).length = field bytes 5 2 * field bytes 7 2 := by
      rw [List.length_drop, hlength, Nat.add_sub_cancel_left]
    have hbehind := (cellsBehind_eq_ok_iff hlong).mpr ⟨hwide, htall, hsize, rfl⟩
    exact ⟨⟨v, field bytes 5 2, field bytes 7 2, if 2 ≤ v then some (word bytes 9) else none,
      if 3 ≤ v then some (word bytes 13) else none, if 4 ≤ v then some (word bytes 17) else none,
      bytes.drop header⟩, decodeVersioned_eq_ok_iff.mpr
        ⟨hv, header, hheader, hlong, rfl, rfl, rfl, rfl, rfl, hbehind⟩⟩

/-! Damaged saves. -/

/-- The bytes are what is left of a save, or the save with more behind it. -/
structure Damaged (whole bytes : List UInt8) : Prop where
  changed : bytes ≠ whole
  nested : bytes <+: whole ∨ whole <+: bytes

namespace Damaged

theorem length_ne (h : Damaged whole bytes) : bytes.length ≠ whole.length := by
  intro hlength
  rcases h.nested with hcut | hmore
  · exact h.changed (hcut.eq_of_length hlength)
  · exact h.changed (hmore.eq_of_length hlength.symm).symm

theorem take (h : Damaged whole bytes) {n : Nat} (hn : n ≤ bytes.length) (hw : n ≤ whole.length) :
    bytes.take n = whole.take n := by
  rcases h.nested with ⟨rest, rfl⟩ | ⟨rest, rfl⟩
  · rw [List.take_append_of_le_length hn]
  · rw [List.take_append_of_le_length hw]

theorem field (h : Damaged whole bytes) (hn : start + size ≤ bytes.length)
    (hw : start + size ≤ whole.length) : field bytes start size = field whole start size := by
  have htake := congrArg (List.drop start) (h.take hn hw)
  rw [List.drop_take, List.drop_take, Nat.add_sub_cancel_left] at htake
  rw [Snapshot.field, Snapshot.field, htake]

end Damaged

theorem length_encode (rng step seed : UInt32) (hcells : cells.length = width * height) :
    (encode width height rng step seed cells).length = 21 + width * height := by
  simp only [encode, magic, List.length_append, List.length_cons, List.length_nil,
    length_littleEndian, hcells]

/-- What is wrong with a damaged save of so many bytes, by what is left of it. -/
def lengthError (whole found : Nat) : SaveError :=
  if found < 4 then .truncated 4 found
  else if found < 5 then .truncated 5 found
  else if found < 21 then .truncated 21 found
  else if found < whole then .truncated whole found
  else .trailingBytes whole found

/-- The width of a save without a version, if it begins like one of the current version. -/
def seemingWidth (width : Nat) : Nat := 4 + 256 * (width % 256)

def seemingHeight (width height : Nat) : Nat := width / 256 + 256 * (height % 256)

/-- A damaged save has the length of a save without a version. -/
structure Mistakable (width height found : Nat) : Prop where
  tall : 0 < seemingHeight width height
  length : found = 8 + seemingWidth width * seemingHeight width height

instance (width height found : Nat) : Decidable (Mistakable width height found) :=
  decidable_of_iff (0 < seemingHeight width height ∧
    found = 8 + seemingWidth width * seemingHeight width height)
    ⟨fun h => ⟨h.1, h.2⟩, fun h => ⟨h.tall, h.length⟩⟩

theorem Mistakable.twelve_le {found : Nat} (h : Mistakable width height found) : 12 ≤ found := by
  have hside : 4 * 1 ≤ seemingWidth width * seemingHeight width height :=
    Nat.mul_le_mul (Nat.le_add_right ..) h.tall
  have hlength := h.length
  omega

section

variable (h : Damaged (encode width height rng step seed cells) bytes)
  (hcells : cells.length = width * height)
include h hcells

theorem Damaged.decodeVersioned_eq (hwidth : 0 < width) (hheight : 0 < height)
    (hnarrow : width ≤ Config.maxDimension) (hshort : height ≤ Config.maxDimension)
    (hfour : 4 ≤ bytes.length) :
    decodeVersioned bytes = .error (lengthError (21 + width * height) bytes.length) := by
  have hwhole := length_encode rng step seed hcells
  have hne := h.length_ne
  rw [hwhole] at hne
  rcases Nat.lt_or_ge bytes.length 5 with hfive | hfive
  · have hnone : bytes[4]? = none := List.getElem?_eq_none (Nat.le_of_lt_succ hfive)
    simp only [decodeVersioned, hnone, lengthError, hfive, Nat.not_lt.mpr hfour, if_false, if_true]
  have hversion : bytes[4]? = some 4 := by
    have htake := congrArg (·[4]?) (h.take hfive (by omega))
    rwa [List.getElem?_take_of_lt (by decide), List.getElem?_take_of_lt (by decide)] at htake
  have hheader : headerLength? 4 = some 21 := rfl
  rcases Nat.lt_or_ge bytes.length 21 with hhead | hhead
  · simp only [decodeVersioned, hversion, hheader, lengthError, hhead, Nat.not_lt.mpr hfour,
      Nat.not_lt.mpr hfive, if_false, if_true]
  have hw : Snapshot.field bytes 5 2 = width := by
    have hbound : width < 256 ^ 2 := Nat.lt_succ_of_le hnarrow
    rw [h.field (by omega) (by omega)]
    exact ofLittleEndian_littleEndian hbound
  have hh : Snapshot.field bytes 7 2 = height := by
    have hbound : height < 256 ^ 2 := Nat.lt_succ_of_le hshort
    rw [h.field (by omega) (by omega)]
    exact ofLittleEndian_littleEndian hbound
  have hbehind : cellsBehind bytes 21 width height
      = .error (lengthError (21 + width * height) bytes.length) := by
    simp only [cellsBehind, lengthError, hwidth.ne', hheight.ne', or_self, Nat.not_lt.mpr hfour,
      Nat.not_lt.mpr hfive, Nat.not_lt.mpr hhead, if_false]
    split_ifs with hless hmore
    · rfl
    · rfl
    · omega
  simp only [decodeVersioned, hversion, hheader, Nat.not_lt.mpr hhead, if_false, hw, hh, hbehind]

theorem Damaged.decodeLegacy?_eq (hnarrow : width ≤ Config.maxDimension) :
    decodeLegacy? bytes = if Mistakable width height bytes.length then
      some ⟨0, seemingWidth width, seemingHeight width height, none, none, none, bytes.drop 8⟩
    else none := by
  have hwhole := length_encode rng step seed hcells
  have hsides : 8 ≤ bytes.length → Snapshot.field bytes 4 2 = seemingWidth width ∧
      Snapshot.field bytes 6 2 = seemingHeight width height := by
    intro hlong
    rw [h.field (by omega) (by omega), h.field (by omega) (by omega)]
    refine ⟨(field_eq_pair rfl).trans ?_, (field_eq_pair rfl).trans ?_⟩
    · rw [toNat_low]
      rfl
    · rw [toNat_high hnarrow, toNat_low]
      rfl
  split_ifs with hmistaken
  · have hlong := hmistaken.twelve_le
    obtain ⟨hw, hh⟩ := hsides (by omega)
    have hbehind : (bytes.drop 8).length = seemingWidth width * seemingHeight width height := by
      rw [List.length_drop, hmistaken.length, Nat.add_sub_cancel_left]
    exact decodeLegacy?_eq_some_iff.mpr ⟨by omega, rfl, hw, hh, ⟨rfl, rfl, rfl⟩,
      (cellsBehind_eq_ok_iff (by omega)).mpr
        ⟨Nat.lt_of_lt_of_le (by decide) (Nat.le_add_right 4 _), hmistaken.tall, hbehind, rfl⟩⟩
  · rw [Option.eq_none_iff_forall_ne_some]
    intro s hs
    obtain ⟨hlong, -, hw, hh, -, hbehind⟩ := decodeLegacy?_eq_some_iff.mp hs
    obtain ⟨hw', hh'⟩ := hsides hlong
    obtain ⟨-, htall, hlength, hdrop⟩ := (cellsBehind_eq_ok_iff hlong).mp hbehind
    rw [← hdrop, List.length_drop, ← hw, ← hh, hw', hh'] at hlength
    exact hmistaken ⟨hh' ▸ hh ▸ htall, by omega⟩

end

/-- A damaged save of the current version is refused for its length, unless it has just the length
of a save without a version whose sides are read off the same header. -/
theorem damaged_saves_are_refused (hwidth : 0 < width) (hheight : 0 < height)
    (hnarrow : width ≤ Config.maxDimension) (hshort : height ≤ Config.maxDimension)
    (hcells : cells.length = width * height)
    (h : Damaged (encode width height rng step seed cells) bytes) :
    decode bytes = if Mistakable width height bytes.length then
        .ok ⟨0, seemingWidth width, seemingHeight width height, none, none, none, bytes.drop 8⟩
      else .error (lengthError (21 + width * height) bytes.length) := by
  have hwhole := length_encode rng step seed hcells
  rcases Nat.lt_or_ge bytes.length 4 with hfour | hfour
  · have hnot : ¬ Mistakable width height bytes.length := fun hmistaken => by
      have hlong := hmistaken.twelve_le
      omega
    rw [if_neg hnot, decode, lengthError, if_pos hfour, if_pos hfour]
  · have hmagic : bytes.take 4 = magic := h.take hfour (by omega)
    rw [decode, if_neg (Nat.not_lt.mpr hfour), if_neg (not_not_intro hmagic),
      h.decodeVersioned_eq hcells hwidth hheight hnarrow hshort hfour,
      h.decodeLegacy?_eq hcells hnarrow]
    split_ifs <;> rfl

theorem damaged_room : Damaged (encode 256 256 1 0 0 (List.replicate (256 * 256) 0))
    [83, 65, 78, 68, 4, 0, 1, 0, 1, 1, 0, 0] := by
  have hcut : ∀ cells, [83, 65, 78, 68, 4, 0, 1, 0, 1, 1, 0, 0] <+: encode 256 256 1 0 0 cells :=
    fun _ => ⟨_, rfl⟩
  refine ⟨fun hsame => ?_, .inl (hcut _)⟩
  have hlength := congrArg List.length hsame
  rw [length_encode _ _ _ List.length_replicate] at hlength
  exact absurd hlength (by decide)

/-- What is left of the room is a save without a version, of four cells. Of the save of a pair of
cells no less and no more is taken. -/
theorem damaged_saves_are_refused_pair :
    decode [83, 65, 78, 68, 4, 0, 1, 0, 1, 1, 0, 0]
        = .ok ⟨0, 4, 1, none, none, none, [1, 1, 0, 0]⟩ ∧
      decode ((encode 2 1 7 8 9 [3, 4]).take 22) = .error (.truncated 23 22) ∧
      decode (encode 2 1 7 8 9 [3, 4] ++ [5]) = .error (.trailingBytes 23 24) := by
  have hless : Damaged (encode 2 1 7 8 9 [3, 4]) ((encode 2 1 7 8 9 [3, 4]).take 22) :=
    ⟨by decide, .inl (List.take_prefix _ _)⟩
  have hmore : Damaged (encode 2 1 7 8 9 [3, 4]) (encode 2 1 7 8 9 [3, 4] ++ [5]) :=
    ⟨by decide, .inr (List.prefix_append _ _)⟩
  refine ⟨?_, ?_, ?_⟩
  · exact damaged_saves_are_refused (by decide) (by decide) (by decide) (by decide)
      List.length_replicate damaged_room
  · exact damaged_saves_are_refused (by decide) (by decide) (by decide) (by decide) rfl hless
  · exact damaged_saves_are_refused (by decide) (by decide) (by decide) (by decide) rfl hmore

/-- Not every damaged save is refused. -/
theorem exists_damaged_save_taken : ¬ ∀ (width height : Nat) (rng step seed : UInt32)
    (cells : List MaterialId) (bytes : List UInt8), 0 < width → 0 < height →
      width ≤ Config.maxDimension → height ≤ Config.maxDimension → cells.length = width * height →
        Damaged (encode width height rng step seed cells) bytes →
          ∃ e, decode bytes = .error e := by
  intro hall
  obtain ⟨e, he⟩ := hall 256 256 1 0 0 _ _ (by decide) (by decide) (by decide) (by decide)
    List.length_replicate damaged_room
  cases he

/-! Saves older than versions. -/

def encodeLegacy (width height : Nat) (cells : List MaterialId) : List UInt8 :=
  magic ++ littleEndian 2 width ++ littleEndian 2 height ++ cells

/-- One byte off, a save without a version is a whole save of a version: the low byte of the width
is that version, the sides it then has are not zero, and the length is right for them. -/
structure Coincides (width height : Nat) (first : MaterialId) : Prop where
  version : 1 ≤ width % 256 ∧ width % 256 ≤ 4
  wide : 0 < width / 256 + 256 * (height % 256)
  tall : 0 < height / 256 + 256 * first.toNat
  length : 5 + 4 * (width % 256)
      + (width / 256 + 256 * (height % 256)) * (height / 256 + 256 * first.toNat)
    = 8 + width * height

section

variable {first : MaterialId}

theorem length_encodeLegacy : (encodeLegacy width height cells).length = 8 + cells.length := by
  simp only [encodeLegacy, magic, List.length_append, List.length_cons, List.length_nil,
    length_littleEndian]

theorem legacy_encodeLegacy (hwidth : 0 < width) (hheight : 0 < height)
    (hnarrow : width ≤ Config.maxDimension) (hshort : height ≤ Config.maxDimension)
    (hcells : cells.length = width * height) : Legacy (encodeLegacy width height cells)
      ⟨0, width, height, none, none, none, cells⟩ where
  shaped := ⟨⟨hnarrow, hshort, hcells⟩, hwidth, hheight⟩
  version := rfl
  fields := ⟨rfl, rfl, rfl⟩
  layout := rfl

/-- The sides of a save without a version, read one byte off. -/
theorem field_encodeLegacy (hnarrow : width ≤ Config.maxDimension)
    (hshort : height ≤ Config.maxDimension) :
    field (encodeLegacy width height (first :: cells)) 5 2 = width / 256 + 256 * (height % 256) ∧
      field (encodeLegacy width height (first :: cells)) 7 2
        = height / 256 + 256 * first.toNat := by
  refine ⟨(field_eq_pair rfl).trans ?_, (field_eq_pair rfl).trans ?_⟩
  · rw [toNat_high hnarrow, toNat_low]
  · rw [toNat_high hshort]

theorem coincides_iff (hnarrow : width ≤ Config.maxDimension)
    (hshort : height ≤ Config.maxDimension) (hcells : (first :: cells).length = width * height) :
    (∃ s, decodeVersioned (encodeLegacy width height (first :: cells)) = .ok s) ↔
      Coincides width height first := by
  obtain ⟨hw, hh⟩ := @field_encodeLegacy width height cells first hnarrow hshort
  have hversion : (encodeLegacy width height (first :: cells))[4]? = some (UInt8.ofNat width) := rfl
  rw [exists_decodeVersioned_iff, hw, hh, length_encodeLegacy, hcells, hversion]
  constructor
  · rintro ⟨v, header, hv, hheader, hwide, htall, hlength⟩
    rw [← Option.some.inj hv, headerLength?_eq_some_iff_toNat, toNat_low] at hheader
    obtain ⟨hv, rfl⟩ := hheader
    exact ⟨hv, hwide, htall, hlength.symm⟩
  · intro h
    refine ⟨_, 5 + 4 * (width % 256), rfl, ?_, h.wide, h.tall, h.length.symm⟩
    rw [headerLength?_eq_some_iff_toNat, toNat_low]
    exact ⟨h.version, rfl⟩

end

/-- A save without a version is read as what it is, unless by its length it is a save of a version
as well; then it is read as that. -/
theorem older_saves_are_read_as_they_are {first : MaterialId} (hwidth : 0 < width)
    (hheight : 0 < height) (hnarrow : width ≤ Config.maxDimension)
    (hshort : height ≤ Config.maxDimension)
    (hcells : (first :: cells).length = width * height) :
    (¬ Coincides width height first → decode (encodeLegacy width height (first :: cells))
      = .ok ⟨0, width, height, none, none, none, first :: cells⟩) ∧
    (Coincides width height first → ∃ s, Versioned (encodeLegacy width height (first :: cells)) s ∧
      decode (encodeLegacy width height (first :: cells)) = .ok s) := by
  have hmagic : (encodeLegacy width height (first :: cells)).take 4 = magic := rfl
  have hlegacy := (decodeLegacy?_eq_some_iff_legacy hmagic).mpr
    (legacy_encodeLegacy hwidth hheight hnarrow hshort hcells)
  have hversioned := coincides_iff hnarrow hshort hcells
  refine ⟨fun hnot => ?_, fun hboth => ?_⟩
  · refine (decode_eq_ok_iff_of_marked hmagic).mpr (.inr ⟨hlegacy, fun s hs => ?_⟩)
    exact hnot (hversioned.mp ⟨s, hs⟩)
  · obtain ⟨s, hs⟩ := hversioned.mpr hboth
    exact ⟨s, (decodeVersioned_eq_ok_iff_versioned hmagic).mp hs,
      (decode_eq_ok_iff_of_marked hmagic).mpr (.inl hs)⟩

/-- A pair of cells is read as it is, though it begins like a save of the second version; and a
column of 257 empty cells is read as a row of 256. -/
theorem older_saves_are_read_as_they_are_column :
    decode (encodeLegacy 2 1 [3, 4]) = .ok ⟨0, 2, 1, none, none, none, [3, 4]⟩ ∧
      ∃ s, Versioned (encodeLegacy 1 257 (0 :: List.replicate 256 0)) s ∧
        decode (encodeLegacy 1 257 (0 :: List.replicate 256 0)) = .ok s := by
  have hpair : ¬ Coincides 2 1 3 := fun h => absurd h.length (by decide)
  have hcolumn : Coincides 1 257 0 := ⟨by decide, by decide, by decide, by decide⟩
  constructor
  · exact (older_saves_are_read_as_they_are (by decide) (by decide) (by decide) (by decide) rfl).1
      hpair
  · exact (older_saves_are_read_as_they_are (by decide) (by decide) (by decide) (by decide)
      (congrArg (· + 1) List.length_replicate)).2 hcolumn

/-- Not every save without a version is read as it is: one may also be a save of a version. -/
theorem exists_older_save_misread : ¬ ∀ (width height : Nat) (cells : List MaterialId), 0 < width →
    0 < height → width ≤ Config.maxDimension → height ≤ Config.maxDimension →
      cells.length = width * height →
        decode (encodeLegacy width height cells)
          = .ok ⟨0, width, height, none, none, none, cells⟩ := by
  intro hall
  have hread := hall 1 257 (List.replicate 257 0) (by decide) (by decide) (by decide) (by decide)
    List.length_replicate
  have hversion := congrArg (fun r => r.toOption.map version) hread
  have hone :
      (decode (encodeLegacy 1 257 (List.replicate 257 0))).toOption.map version = some 1 := by
    decide +kernel
  rw [hone] at hversion
  cases hversion

end Sandfall.Snapshot
