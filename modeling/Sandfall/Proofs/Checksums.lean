import Sandfall.Proofs.Tiling

/-! What a checksum notices. To mix a byte into the sum is one-to-one, so two sums that differ once
differ to the end. Another byte in one place makes them differ, and so do two different neighbours
that change places: what the first of them has moved by a multiple of the prime is more than the
second, which reaches the lowest eight bits only, can bring back. -/

namespace Sandfall

namespace Checksum

variable {a b : UInt8} {h k : UInt32}

/-- The prime has an inverse, as it is odd. -/
theorem mul_prime_inj : h * prime = k * prime ↔ h = k := by
  have hinverse : prime * 899433627 = 1 := by decide
  have hback : ∀ n : UInt32, n * prime * 899433627 = n := by
    intro n
    rw [UInt32.mul_assoc, hinverse, UInt32.mul_one]
  constructor
  · intro hsame
    rw [← hback h, hsame, hback]
  · rintro rfl
    rfl

theorem mix_inj (b : UInt8) : mix h b = mix k b ↔ h = k := by
  rw [mix, mix, mul_prime_inj, UInt32.xor_left_inj]

theorem foldl_mix_inj (bytes : List UInt8) : bytes.foldl mix h = bytes.foldl mix k ↔ h = k := by
  induction bytes generalizing h k with
  | nil => rfl
  | cons b bytes ih => rw [List.foldl_cons, List.foldl_cons, ih, mix_inj]

theorem mix_byte_inj (h : UInt32) : mix h a = mix h b ↔ a = b := by
  rw [mix, mix, mul_prime_inj, UInt32.xor_right_inj, UInt8.toUInt32_inj]

theorem xor_byte_div (h : UInt32) (b : UInt8) :
    (h ^^^ b.toUInt32).toNat / 256 = h.toNat / 256 := by
  have hbyte : b.toNat >>> 8 = 0 := Nat.shiftRight_eq_zero b.toNat 8 b.toNat_lt
  calc
    (h ^^^ b.toUInt32).toNat / 256 = (h.toNat ^^^ b.toNat) >>> 8 := by
      rw [UInt32.toNat_xor, UInt8.toNat_toUInt32, Nat.shiftRight_eq_div_pow]
    _ = h.toNat >>> 8 := by rw [Nat.shiftRight_xor_distrib, hbyte, Nat.xor_zero]
    _ = h.toNat / 256 := Nat.shiftRight_eq_div_pow _ _

theorem exists_mul_prime (h : UInt32) :
    ∃ e, 16777619 * h.toNat = 4294967296 * e + (h * prime).toNat := by
  have hproduct : (h * prime).toNat = 16777619 * h.toNat % 4294967296 := by
    rw [UInt32.toNat_mul, Nat.mul_comm]
    rfl
  exact ⟨_, by rw [hproduct, Nat.div_add_mod]⟩

/-- Words that differ in the lowest eight bits only have products that differ in others too. -/
theorem eq_of_mul_prime_div (hlow : h.toNat / 256 = k.toNat / 256)
    (hproduct : (h * prime).toNat / 256 = (k * prime).toNat / 256) : h = k := by
  obtain ⟨e, he⟩ := exists_mul_prime h
  obtain ⟨f, hf⟩ := exists_mul_prime k
  -- 255 primes are less than a word can hold, so both products lose the same
  have hlost : e = f := by omega
  exact UInt32.toNat_inj.mp (by omega)

/-- The order of two different bytes counts. -/
theorem mix_comm_iff (h : UInt32) : mix (mix h a) b = mix (mix h b) a ↔ a = b := by
  constructor
  · intro hsame
    have hsums : mix h a ^^^ b.toUInt32 = mix h b ^^^ a.toUInt32 := mul_prime_inj.mp hsame
    have hproduct : (mix h a).toNat / 256 = (mix h b).toNat / 256 := by
      rw [← xor_byte_div (mix h a) b, hsums, xor_byte_div]
    have hlow : (h ^^^ a.toUInt32).toNat / 256 = (h ^^^ b.toUInt32).toNat / 256 := by
      rw [xor_byte_div, xor_byte_div]
    have hword := eq_of_mul_prime_div hlow hproduct
    rwa [UInt32.xor_right_inj, UInt8.toUInt32_inj] at hword
  · rintro rfl
    rfl

/-- In one place there is another byte, or two different neighbours have changed places. -/
inductive Altered : List UInt8 → List UInt8 → Prop
  | replaced {a b : UInt8} (before after : List UInt8) :
    a ≠ b → Altered (before ++ a :: after) (before ++ b :: after)
  | exchanged {a b : UInt8} (before after : List UInt8) :
    a ≠ b → Altered (before ++ a :: b :: after) (before ++ b :: a :: after)

theorem Altered.ofList_ne {xs ys : List UInt8} (h : Altered xs ys) : ofList xs ≠ ofList ys := by
  cases h with
  | replaced before after hne =>
    simp only [ofList, List.foldl_append, List.foldl_cons, ne_eq, foldl_mix_inj, mix_byte_inj]
    exact hne
  | exchanged before after hne =>
    simp only [ofList, List.foldl_append, List.foldl_cons, ne_eq, foldl_mix_inj, mix_comm_iff]
    exact hne

end Checksum

namespace Chunks

theorem pairwise_cellsOf (c : Chunks) (i : Nat) : (c.cellsOf i).Pairwise (· < ·) := by
  have hright : (c.bounds (c.coords i).1 (c.coords i).2).right ≤ c.width := Nat.min_le_right _ _
  simp only [cellsOf]
  generalize c.bounds (c.coords i).1 (c.coords i).2 = b at hright
  refine List.pairwise_flatMap.mpr ⟨fun y _ => List.pairwise_lt_range', ?_⟩
  refine List.Pairwise.imp (fun {y y'} hlt k hk l hl => ?_) List.pairwise_lt_range'
  rw [List.mem_range'_1] at hk hl
  have hrows : (y + 1) * c.width ≤ y' * c.width := Nat.mul_le_mul_right _ hlt
  rw [Nat.add_mul, Nat.one_mul] at hrows
  omega

/-- The cell is the only one of the chunk in which the grids differ. -/
structure DifferAt (c : Chunks) (i k : Nat) (g g' : Grid) : Prop where
  inside : k ∈ c.cellsOf i
  differ : g.cell k ≠ g'.cell k
  rest : ∀ m ∈ c.cellsOf i, m ≠ k → g'.cell m = g.cell m

/-- Two cells, neighbours in the order of the chunk, have exchanged their different materials, and
the other cells of the chunk are the same. -/
structure Exchanged (c : Chunks) (i k l : Nat) (g g' : Grid) : Prop where
  neighbours : [k, l] <:+: c.cellsOf i
  differ : g.cell k ≠ g.cell l
  first : g'.cell k = g.cell l
  second : g'.cell l = g.cell k
  rest : ∀ m ∈ c.cellsOf i, m ≠ k → m ≠ l → g'.cell m = g.cell m

variable {c : Chunks} {i k l : Nat} {g g' : Grid}

theorem nodup_cellsOf (c : Chunks) (i : Nat) : (c.cellsOf i).Nodup :=
  (c.pairwise_cellsOf i).imp Nat.ne_of_lt

theorem DifferAt.altered (h : c.DifferAt i k g g') :
    Checksum.Altered (c.contents g i) (c.contents g' i) := by
  obtain ⟨before, after, hcells⟩ := List.append_of_mem h.inside
  have honce := c.nodup_cellsOf i
  have hrest := h.rest
  rw [hcells] at honce hrest
  have hk := (List.nodup_cons.mp (List.nodup_middle.mp honce)).1
  rw [List.mem_append, not_or] at hk
  have hbefore : before.map g'.cell = before.map g.cell := List.map_congr_left fun m hm =>
    hrest m (List.mem_append_left _ hm) (ne_of_mem_of_not_mem hm hk.1)
  have hafter : after.map g'.cell = after.map g.cell := List.map_congr_left fun m hm =>
    hrest m (by simp [hm]) (ne_of_mem_of_not_mem hm hk.2)
  simp only [contents, hcells, List.map_append, List.map_cons, hbefore, hafter]
  exact .replaced _ _ h.differ

theorem Exchanged.altered (h : c.Exchanged i k l g g') :
    Checksum.Altered (c.contents g i) (c.contents g' i) := by
  obtain ⟨before, after, hcells⟩ := h.neighbours
  rw [List.append_assoc, List.cons_append, List.cons_append, List.nil_append] at hcells
  have honce := c.nodup_cellsOf i
  have hrest := h.rest
  rw [← hcells] at honce hrest
  obtain ⟨hk, honce⟩ := List.nodup_cons.mp (List.nodup_middle.mp honce)
  have hl := (List.nodup_cons.mp (List.nodup_middle.mp honce)).1
  simp only [List.mem_append, List.mem_cons, not_or] at hk hl
  have hbefore : before.map g'.cell = before.map g.cell := List.map_congr_left fun m hm =>
    hrest m (List.mem_append_left _ hm) (ne_of_mem_of_not_mem hm hk.1)
      (ne_of_mem_of_not_mem hm hl.1)
  have hafter : after.map g'.cell = after.map g.cell := List.map_congr_left fun m hm =>
    hrest m (by simp [hm]) (ne_of_mem_of_not_mem hm hk.2.2) (ne_of_mem_of_not_mem hm hl.2)
  simp only [contents, ← hcells, List.map_append, List.map_cons, hbefore, hafter, h.first, h.second]
  exact .exchanged _ _ h.differ

/-- A chunk whose contents differ in one cell, or by an exchange of two different neighbours, has
another checksum: any chunk of a map, whole or cut, and whatever the rest of the grid may hold. -/
theorem checksum_sees_elementary_changes (c : Chunks) (i : Nat) (g g' : Grid) :
    (∀ k, c.DifferAt i k g g' → c.checksum g i ≠ c.checksum g' i) ∧
      ∀ k l, c.Exchanged i k l g g' → c.checksum g i ≠ c.checksum g' i := by
  simp only [checksum_eq]
  exact ⟨fun k h => h.altered.ofList_ne, fun k l h => h.altered.ofList_ne⟩

/-- A chunk of eight columns, cut by the right side of the grid: the last cell of its first row and
the first of its second are neighbours. -/
theorem checksum_sees_elementary_changes_cut :
    (ofSize 40 2).DifferAt 1 39 (Grid.blank 40 2) ((Grid.blank 40 2).set 39 7) ∧
      (ofSize 40 2).checksum (Grid.blank 40 2) 1
        ≠ (ofSize 40 2).checksum ((Grid.blank 40 2).set 39 7) 1 ∧
      (ofSize 40 2).Exchanged 1 39 72 ((Grid.blank 40 2).set 39 7) ((Grid.blank 40 2).set 72 7) ∧
      (ofSize 40 2).checksum ((Grid.blank 40 2).set 39 7) 1
        ≠ (ofSize 40 2).checksum ((Grid.blank 40 2).set 72 7) 1 := by
  have hcells : List.range' 32 7 ++ [39, 72] ++ List.range' 73 7 = (ofSize 40 2).cellsOf 1 := by
    decide
  have hone : (ofSize 40 2).DifferAt 1 39 (Grid.blank 40 2) ((Grid.blank 40 2).set 39 7) := by
    refine ⟨by decide, by decide, fun m _ hm => ?_⟩
    rw [Grid.cell_set_of_ne _ (Ne.symm hm)]
  have htwo : (ofSize 40 2).Exchanged 1 39 72 ((Grid.blank 40 2).set 39 7)
      ((Grid.blank 40 2).set 72 7) := by
    refine ⟨⟨_, _, hcells⟩, by decide, by decide, by decide, fun m _ hfirst hsecond => ?_⟩
    rw [Grid.cell_set_of_ne _ (Ne.symm hfirst), Grid.cell_set_of_ne _ (Ne.symm hsecond)]
  exact ⟨hone, (checksum_sees_elementary_changes (ofSize 40 2) 1 _ _).1 39 hone, htwo,
    (checksum_sees_elementary_changes (ofSize 40 2) 1 _ _).2 39 72 htwo⟩

end Chunks

end Sandfall
