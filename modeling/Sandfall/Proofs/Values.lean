import Sandfall.Binary32
import Mathlib.Tactic

/-! What single-precision numbers stand for. A finite number is a whole number of units of
`2 ^ -149`, and the units of a magnitude grow with it, so to compare two finite numbers is to
compare their values. Fractions of 24 bits are held exactly. -/

namespace Sandfall

namespace Binary32

variable {x y : Binary32}

/-- The exact value of a finite number. -/
def value (x : Binary32) : ℚ := x.units / 2 ^ 149

/-- The units of the number with these bits below the sign. -/
def magnitudeUnits (m : Nat) : Nat :=
  if m < leadingBit then m else (leadingBit + m % leadingBit) * 2 ^ (m / leadingBit - 1)

theorem value_zero : zero.value = 0 := by
  have hunits : zero.units = 0 := by decide
  rw [value, hunits]
  norm_num

theorem value_one : one.value = 1 := by
  have hunits : one.units = 2 ^ 149 := by decide
  rw [value, hunits]
  norm_num

theorem units_eq (x : Binary32) :
    x.units = if x.negative then -(magnitudeUnits x.magnitude : Int)
      else magnitudeUnits x.magnitude := by
  have hmagnitude : (x.scaled.mantissa <<< (x.scaled.exponent + 149).toNat : Nat)
      = magnitudeUnits x.magnitude := by
    simp only [scaled, magnitudeUnits, Nat.shiftLeft_eq]
    split_ifs with h
    · simp
    · have hexponent : (((x.magnitude / leadingBit : Nat) : Int) - 150 + 149).toNat
          = x.magnitude / leadingBit - 1 := by omega
      rw [hexponent]
  simp only [units, hmagnitude]

theorem magnitudeUnits_of_normal {e f : Nat} (hf : f < leadingBit) :
    magnitudeUnits ((e + 1) * leadingBit + f) = (leadingBit + f) * 2 ^ e := by
  have hlarge : ¬(e + 1) * leadingBit + f < leadingBit := by
    simp only [leadingBit]
    omega
  have hdiv : ((e + 1) * leadingBit + f) / leadingBit = e + 1 := by
    simp only [leadingBit] at hf ⊢
    omega
  have hmod : ((e + 1) * leadingBit + f) % leadingBit = f := by
    simp only [leadingBit] at hf ⊢
    omega
  rw [magnitudeUnits, if_neg hlarge, hdiv, hmod, Nat.add_sub_cancel]

/-- The next magnitude stands for more, also where the exponent goes up. -/
theorem strictMono_magnitudeUnits : StrictMono magnitudeUnits := by
  refine strictMono_nat_of_lt_succ fun m => ?_
  by_cases hsmall : m + 1 < leadingBit
  · rw [magnitudeUnits, magnitudeUnits, if_pos hsmall, if_pos (Nat.lt_of_succ_lt hsmall)]
    exact Nat.lt_succ_self m
  by_cases hfirst : m + 1 = leadingBit
  · have hm : m < leadingBit := by omega
    have hnext : magnitudeUnits (m + 1) = leadingBit := by
      rw [hfirst]
      rfl
    rwa [hnext, magnitudeUnits, if_pos hm]
  obtain ⟨e, f, hf, rfl⟩ : ∃ e f, f < leadingBit ∧ m = (e + 1) * leadingBit + f := by
    refine ⟨m / leadingBit - 1, m % leadingBit, Nat.mod_lt _ (by decide), ?_⟩
    simp only [leadingBit] at hsmall hfirst ⊢
    omega
  rw [magnitudeUnits_of_normal hf]
  by_cases hlast : f + 1 < leadingBit
  · rw [Nat.add_assoc, magnitudeUnits_of_normal hlast]
    exact Nat.mul_lt_mul_of_pos_right (by omega) (Nat.two_pow_pos e)
  · have hnext : (e + 1) * leadingBit + f + 1 = (e + 1 + 1) * leadingBit + 0 := by
      simp only [leadingBit] at hf hlast ⊢
      omega
    have hdouble : leadingBit * 2 ^ (e + 1) = 2 * leadingBit * 2 ^ e := by
      rw [Nat.pow_succ]
      ring
    rw [hnext, magnitudeUnits_of_normal (by decide), Nat.add_zero, hdouble]
    exact Nat.mul_lt_mul_of_pos_right (by omega) (Nat.two_pow_pos e)

/-- Numbers stand on the line in the order of their units. -/
theorem rank_lt_iff : x.rank < y.rank ↔ x.units < y.units := by
  have hlt := strictMono_magnitudeUnits.lt_iff_lt (a := x.magnitude) (b := y.magnitude)
  have hgt := strictMono_magnitudeUnits.lt_iff_lt (a := y.magnitude) (b := x.magnitude)
  have hzero : magnitudeUnits 0 = 0 := rfl
  have hx := strictMono_magnitudeUnits.lt_iff_lt (a := 0) (b := x.magnitude)
  have hy := strictMono_magnitudeUnits.lt_iff_lt (a := 0) (b := y.magnitude)
  rw [rank, rank, units_eq, units_eq]
  split_ifs <;> omega

theorem lt_iff_value_lt (hx : x.isFinite) (hy : y.isFinite) :
    x.lt y = true ↔ x.value < y.value := by
  have hxnan : x.isNaN = false := by
    simp only [isFinite, isNaN, decide_eq_true_eq, decide_eq_false_iff_not] at hx ⊢
    omega
  have hynan : y.isNaN = false := by
    simp only [isFinite, isNaN, decide_eq_true_eq, decide_eq_false_iff_not] at hy ⊢
    omega
  have hunit : (0 : ℚ) < 2 ^ 149 := by positivity
  rw [lt, hxnan, hynan, value, value, div_lt_div_iff_of_pos_right hunit, Int.cast_lt,
    ← rank_lt_iff]
  simp

theorem isFinite_of_isProbability (h : x.isProbability) : x.isFinite := by
  simp only [isProbability, le, Bool.and_eq_true, Bool.not_eq_true', decide_eq_true_eq] at h
  obtain ⟨⟨-, hlow⟩, -, hhigh⟩ := h
  have hzero : zero.rank = 0 := by decide
  have hone : one.rank = 127 * leadingBit := by decide
  rw [isFinite, decide_eq_true_eq]
  rw [hzero, rank] at hlow
  rw [hone, rank] at hhigh
  simp only [infinite, leadingBit] at hhigh ⊢
  split_ifs at hlow hhigh <;> omega

section Fraction

variable {k : Nat}

/-- The bits of a fraction of 24 bits: its own, brought up to the leading one. -/
theorem ofFraction_magnitude (hpos : 0 < k) (hk : k < 2 ^ 24) :
    ∃ f, f < leadingBit ∧ leadingBit + f = k * 2 ^ (23 - k.log2) ∧
      (ofFraction k).bits.toNat = (k.log2 + 102 + 1) * leadingBit + f := by
  have hne : k ≠ 0 := Nat.ne_of_gt hpos
  have hlog : k.log2 < 24 := (Nat.log2_lt hne).mpr hk
  have hlow : 2 ^ k.log2 * 2 ^ (23 - k.log2) ≤ k * 2 ^ (23 - k.log2) :=
    Nat.mul_le_mul_right _ (Nat.log2_self_le hne)
  have hhigh : k * 2 ^ (23 - k.log2) < 2 ^ (k.log2 + 1) * 2 ^ (23 - k.log2) :=
    Nat.mul_lt_mul_of_pos_right Nat.lt_log2_self (Nat.two_pow_pos _)
  have hlowest : k.log2 + (23 - k.log2) = 23 := by omega
  have hhighest : k.log2 + 1 + (23 - k.log2) = 24 := by omega
  rw [← Nat.pow_add, hlowest] at hlow
  rw [← Nat.pow_add, hhighest] at hhigh
  refine ⟨k * 2 ^ (23 - k.log2) - leadingBit, ?_, ?_, ?_⟩
  · simp only [leadingBit]
    omega
  · simp only [leadingBit]
    omega
  · rw [ofFraction, if_neg hne, ofMagnitude, if_neg Bool.false_ne_true, Nat.shiftLeft_eq,
      UInt32.toNat_ofNat_of_lt']
    · simp only [leadingBit]
      omega
    · simp only [leadingBit, UInt32.size]
      omega

theorem ofFraction_isFinite (hk : k < 2 ^ 24) : (ofFraction k).isFinite := by
  rcases Nat.eq_zero_or_pos k with rfl | hpos
  · decide
  · obtain ⟨f, hf, -, hbits⟩ := ofFraction_magnitude hpos hk
    have hlog : k.log2 < 24 := (Nat.log2_lt (Nat.ne_of_gt hpos)).mpr hk
    rw [isFinite, decide_eq_true_eq, magnitude, hbits]
    simp only [leadingBit, signBit, infinite] at hf ⊢
    omega

theorem value_ofFraction (hk : k < 2 ^ 24) : (ofFraction k).value = k / 2 ^ 24 := by
  rcases Nat.eq_zero_or_pos k with rfl | hpos
  · rw [ofFraction, if_pos rfl, value_zero]
    norm_num
  · obtain ⟨f, hf, hbrought, hbits⟩ := ofFraction_magnitude hpos hk
    have hlog : k.log2 < 24 := (Nat.log2_lt (Nat.ne_of_gt hpos)).mpr hk
    have hsmall : (k.log2 + 102 + 1) * leadingBit + f < signBit := by
      simp only [leadingBit, signBit] at hf ⊢
      omega
    have hpositive : (ofFraction k).negative = false := by
      rw [negative, hbits, decide_eq_false_iff_not]
      exact Nat.not_le.mpr hsmall
    have hunits : (ofFraction k).units = (k * 2 ^ 125 : Nat) := by
      have hexponent : 23 - k.log2 + (k.log2 + 102) = 125 := by omega
      rw [units_eq, hpositive, if_neg Bool.false_ne_true, magnitude, hbits, Nat.mod_eq_of_lt hsmall,
        magnitudeUnits_of_normal hf, hbrought, Nat.mul_assoc, ← Nat.pow_add, hexponent]
    rw [value, hunits]
    push_cast
    ring

end Fraction

end Binary32

end Sandfall
