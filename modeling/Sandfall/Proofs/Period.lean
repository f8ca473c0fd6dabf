import Sandfall.Proofs.Draws
import Mathlib.Dynamics.PeriodicPts.Lemmas

/-! How long the generator goes on. Steps are linear over xor, so they can be added up like powers
of a variable, into polynomials whose coefficients are bits. One polynomial of degree 32 takes every
word to zero; so what a power of the step does is done by its residue, which is a word again, and
the residue of a large power is found by squaring. The power of exponent `2 ^ 32 - 1` is one. If a
word came back earlier it would come back after `2 ^ 32 - 1` divided by one of its prime factors; but
there the power differs from one by a unit, so only zero does. -/

namespace Sandfall

namespace Random

def Linear (f : UInt32 → UInt32) : Prop := ∀ x y, f (x ^^^ y) = f x ^^^ f y

variable {f g : UInt32 → UInt32}

namespace Linear

theorem zero (hf : Linear f) : f 0 = 0 := by
  have hsame := hf 0 0
  rwa [UInt32.xor_self, UInt32.xor_self] at hsame

theorem iterate (hf : Linear f) (n : Nat) : Linear f^[n] := by
  induction n with
  | zero => exact fun _ _ => rfl
  | succ n ih =>
    intro x y
    rw [Function.iterate_succ_apply', Function.iterate_succ_apply', Function.iterate_succ_apply',
      ih, hf]

theorem xor (hf : Linear f) (hg : Linear g) : Linear fun x => f x ^^^ g x := by
  intro x y
  simp only [hf x y, hg x y]
  ac_rfl

/-- A linear map that takes every single bit to zero takes every word to zero. -/
theorem eq_zero (hf : Linear f) (h : ∀ i < 32, f (UInt32.ofNat (2 ^ i)) = 0) (x : UInt32) :
    f x = 0 := by
  have hbelow : ∀ k ≤ 32, ∀ n < 2 ^ k, f (UInt32.ofNat n) = 0 := by
    intro k
    induction k with
    | zero =>
      intro _ n hn
      obtain rfl : n = 0 := by omega
      exact hf.zero
    | succ k ih =>
      intro hk n hn
      by_cases hbit : n.testBit k = true
      · have hrest : n ^^^ 2 ^ k < 2 ^ k := by
          refine Nat.lt_pow_two_of_testBit _ fun i hi => ?_
          rw [Nat.testBit_xor, Nat.testBit_two_pow]
          rcases Nat.eq_or_lt_of_le hi with rfl | hlt
          · simp [hbit]
          · rw [Nat.testBit_lt_two_pow (Nat.lt_of_lt_of_le hn (Nat.pow_le_pow_right (by decide) hlt))]
            simp [Nat.ne_of_lt hlt]
        have hsplit : UInt32.ofNat n = UInt32.ofNat (n ^^^ 2 ^ k) ^^^ UInt32.ofNat (2 ^ k) := by
          rw [← UInt32.ofNat_xor, Nat.xor_assoc, Nat.xor_self, Nat.xor_zero]
        rw [hsplit, hf, ih (by omega) _ hrest, h k (by omega), UInt32.xor_self]
      · refine ih (by omega) n (Nat.lt_pow_two_of_testBit _ fun i hi => ?_)
        rcases Nat.eq_or_lt_of_le hi with rfl | hlt
        · simpa using hbit
        · exact Nat.testBit_lt_two_pow
            (Nat.lt_of_lt_of_le hn (Nat.pow_le_pow_right (by decide) hlt))
  have hx := hbelow 32 le_rfl x.toNat x.toNat_lt
  rwa [UInt32.ofNat_toNat] at hx

end Linear

/-- The polynomial in `f` whose coefficients are the lowest `k` bits of `p`, applied to a word. -/
def polynomial (f : UInt32 → UInt32) : Nat → Nat → UInt32 → UInt32
  | 0, _, _ => 0
  | k + 1, p, x => f (polynomial f k (p / 2) x) ^^^ if p.testBit 0 then x else 0

section Polynomial

variable {k p q : Nat} {x : UInt32}

theorem polynomial_xor (hf : Linear f) :
    polynomial f k (p ^^^ q) x = polynomial f k p x ^^^ polynomial f k q x := by
  induction k generalizing p q with
  | zero => exact UInt32.xor_self.symm
  | succ k ih =>
    have hlowest : (if (p ^^^ q).testBit 0 then x else 0)
        = (if p.testBit 0 then x else 0) ^^^ (if q.testBit 0 then x else 0) := by
      rw [Nat.testBit_xor]
      cases p.testBit 0 <;> cases q.testBit 0 <;> simp
    rw [polynomial, polynomial, polynomial, Nat.xor_div_two, ih, hf, hlowest]
    ac_rfl

theorem polynomial_zero (hf : Linear f) : polynomial f k 0 x = 0 := by
  have hsame := polynomial_xor (k := k) (p := 0) (q := 0) (x := x) hf
  rwa [Nat.xor_self, UInt32.xor_self] at hsame

theorem linear_polynomial (hf : Linear f) (k p : Nat) : Linear (polynomial f k p) := by
  intro x y
  induction k generalizing p with
  | zero => exact UInt32.xor_self.symm
  | succ k ih =>
    have hlowest : (if p.testBit 0 then x ^^^ y else 0)
        = (if p.testBit 0 then x else 0) ^^^ (if p.testBit 0 then y else 0) := by
      cases p.testBit 0 <;> simp
    rw [polynomial, polynomial, polynomial, ih, hf, hlowest]
    ac_rfl

theorem map_polynomial {h : UInt32 → UInt32} (hh : Linear h) (hfg : ∀ y, h (f y) = g (h y)) :
    h (polynomial f k p x) = polynomial g k p (h x) := by
  induction k generalizing p with
  | zero => exact hh.zero
  | succ k ih =>
    rw [polynomial, polynomial, hh, hfg, ih]
    cases p.testBit 0 <;> simp [hh.zero]

/-- The highest coefficient, apart. -/
theorem polynomial_succ (hf : Linear f) :
    polynomial f (k + 1) p x
      = polynomial f k p x ^^^ if p.testBit k then f^[k] x else 0 := by
  induction k generalizing p with
  | zero => simp [polynomial, hf.zero]
  | succ k ih =>
    have htop : f (if (p / 2).testBit k then f^[k] x else 0)
        = if p.testBit (k + 1) then f^[k + 1] x else 0 := by
      rw [Nat.testBit_succ, Function.iterate_succ_apply']
      split_ifs
      · rfl
      · exact hf.zero
    rw [polynomial, ih, hf, htop, polynomial]
    ac_rfl

/-- Bits above the lowest `k` are no coefficients. -/
theorem polynomial_mod (hf : Linear f) (k p : Nat) (x : UInt32) :
    polynomial f k (p % 2 ^ k) x = polynomial f k p x := by
  have hlow : ∀ j ≤ k, polynomial f j (p % 2 ^ k) x = polynomial f j p x := by
    intro j
    induction j with
    | zero => exact fun _ => rfl
    | succ j ih =>
      intro hj
      have hbit : (p % 2 ^ k).testBit j = p.testBit j := by
        rw [Nat.testBit_mod_two_pow, decide_eq_true (Nat.lt_of_succ_le hj), Bool.true_and]
      rw [polynomial_succ hf, polynomial_succ hf, ih (Nat.le_of_lt hj), hbit]
  exact hlow k le_rfl

end Polynomial

/-- The coefficients of the polynomial that a step satisfies, below the leading one. -/
def reduction : UInt32 := 0x3ec241

theorem iterate_step_eq (x : UInt32) : step^[32] x = polynomial step 32 reduction.toNat x := by
  have hlinear : Linear fun x => step^[32] x ^^^ polynomial step 32 reduction.toNat x :=
    (Linear.iterate step_xor 32).xor (linear_polynomial step_xor 32 _)
  exact UInt32.xor_eq_zero_iff.mp (hlinear.eq_zero (by decide +kernel) x)

/-- What the polynomial of the residue does to a word. -/
def act (p x : UInt32) : UInt32 := polynomial step 32 p.toNat x

def raise (p : UInt32) : UInt32 := (p <<< 1) ^^^ if p.toNat.testBit 31 then reduction else 0

def times (p q : UInt32) : UInt32 := polynomial raise 32 p.toNat q

/-- The residue of the power of exponent `n`, found by squaring `k` times. -/
def power : Nat → Nat → UInt32
  | 0, _ => 1
  | k + 1, n =>
    let half := power k (n / 2)
    if n.testBit 0 then raise (times half half) else times half half

section Act

variable {p q x : UInt32}

theorem act_xor : act (p ^^^ q) x = act p x ^^^ act q x := by
  rw [act, UInt32.toNat_xor, polynomial_xor step_xor]
  rfl

theorem act_raise : act (raise p) x = step (act p x) := by
  have hshifted : polynomial step 32 (p <<< 1).toNat x = polynomial step 32 (2 * p.toNat) x := by
    have hmod : (p <<< 1).toNat = 2 * p.toNat % 2 ^ 32 := by
      rw [UInt32.toNat_shiftLeft, Nat.shiftLeft_eq, Nat.mul_comm]
      rfl
    rw [hmod, polynomial_mod step_xor]
  have hstep : step (act p x) = polynomial step 33 (2 * p.toNat) x := by
    have hlowest : (2 * p.toNat).testBit 0 = false := by simp
    rw [polynomial, hlowest, Nat.mul_div_cancel_left _ Nat.two_pos]
    exact UInt32.xor_zero.symm
  have htop : (2 * p.toNat).testBit 32 = p.toNat.testBit 31 := by
    rw [Nat.testBit_succ, Nat.mul_div_cancel_left _ Nat.two_pos]
  have hreduced : act (if p.toNat.testBit 31 then reduction else 0) x
      = if p.toNat.testBit 31 then step^[32] x else 0 := by
    split_ifs
    · exact (iterate_step_eq x).symm
    · exact polynomial_zero step_xor
  rw [hstep, polynomial_succ step_xor, htop, raise, act_xor, hreduced, act, hshifted]

theorem act_times : act (times p q) x = act p (act q x) := by
  have hact : Linear (act · x) := fun _ _ => act_xor
  rw [times, act]
  exact map_polynomial hact fun _ => act_raise

theorem act_one : act 1 x = x := by
  have hone : (1 : UInt32).toNat = 1 := rfl
  have hrest : polynomial step 31 (1 / 2) x = 0 := polynomial_zero step_xor
  rw [act, hone, polynomial, hrest, Linear.zero step_xor]
  exact UInt32.zero_xor

theorem act_power {k n : Nat} (hn : n < 2 ^ k) : act (power k n) x = step^[n] x := by
  induction k generalizing n x with
  | zero =>
    obtain rfl : n = 0 := by omega
    exact act_one
  | succ k ih =>
    have hhalf : n / 2 < 2 ^ k := by omega
    have hsquare : act (times (power k (n / 2)) (power k (n / 2))) x = step^[2 * (n / 2)] x := by
      rw [act_times, ih hhalf, ih hhalf, ← Function.iterate_add_apply, ← Nat.two_mul]
    have hsplit := Nat.div_add_mod n 2
    simp only [power, Nat.testBit_zero, decide_eq_true_eq]
    split_ifs with hodd
    · have hn : n = 2 * (n / 2) + 1 := by omega
      rw [act_raise, hsquare, hn, Function.iterate_succ_apply', ← hn]
    · have hn : 2 * (n / 2) = n := by omega
      rw [hsquare, hn]

/-- If the power of an exponent differs from one by a unit, then in so many steps only zero comes
back. -/
theorem eq_zero_of_iterate_eq {u : UInt32} {n : Nat} (hn : n < 2 ^ 32)
    (hunit : times u (power 32 n ^^^ 1) = 1) (hback : step^[n] x = x) : x = 0 := by
  have hdifference : act (power 32 n ^^^ 1) x = 0 := by
    rw [act_xor, act_power hn, act_one, hback, UInt32.xor_self]
  calc
    x = act (times u (power 32 n ^^^ 1)) x := by rw [hunit, act_one]
    _ = act u 0 := by rw [act_times, hdifference]
    _ = 0 := (linear_polynomial step_xor 32 u.toNat).zero

end Act

/-- A period is the shortest if divided by none of its prime factors it is one. -/
theorem minimalPeriod_eq_of_forall_prime {α : Type} {f : α → α} {x : α} {n : Nat}
    (h : f.IsPeriodicPt n x)
    (hprime : ∀ p, p.Prime → p ∣ n → ¬f.IsPeriodicPt (n / p) x) : f.minimalPeriod x = n := by
  obtain ⟨k, hk⟩ := h.minimalPeriod_dvd
  by_contra hne
  have hk1 : k ≠ 1 := by
    rintro rfl
    exact hne (hk.trans (Nat.mul_one _)).symm
  obtain ⟨p, hp, m, rfl⟩ := Nat.exists_prime_and_dvd hk1
  have hquotient : n / p = f.minimalPeriod x * m := by
    rw [hk, Nat.mul_left_comm, Nat.mul_div_cancel_left _ hp.pos]
  refine hprime p hp ⟨f.minimalPeriod x * m, by rw [hk, Nat.mul_left_comm]⟩ ?_
  rw [hquotient]
  exact (f.isPeriodicPt_minimalPeriod x).mul_const m

theorem mem_of_prime_dvd {p : Nat} (hp : p.Prime) (h : p ∣ UInt32.size - 1) :
    p ∈ [3, 5, 17, 257, 65537] := by
  have hfactors : UInt32.size - 1 = 3 * 5 * 17 * 257 * 65537 := rfl
  have hequal : ∀ {q : Nat}, q.Prime → p ∣ q → p = q := fun hq =>
    (Nat.prime_dvd_prime_iff_eq hp hq).mp
  rw [hfactors, hp.dvd_mul, hp.dvd_mul, hp.dvd_mul, hp.dvd_mul] at h
  rcases h with (((h | h) | h) | h) | h
  · simp [hequal (by norm_num) h]
  · simp [hequal (by norm_num) h]
  · simp [hequal (by norm_num) h]
  · simp [hequal (by norm_num) h]
  · simp [hequal (by norm_num) h]

/-- At the largest divisors of the period the power of the step differs from one by a unit. -/
theorem exists_unit {p : Nat} (hp : p ∈ [3, 5, 17, 257, 65537]) :
    ∃ u, times u (power 32 ((UInt32.size - 1) / p) ^^^ 1) = 1 := by
  simp only [List.mem_cons, List.not_mem_nil, or_false] at hp
  rcases hp with rfl | rfl | rfl | rfl | rfl
  · exact ⟨0x9a1b191d, by decide +kernel⟩
  · exact ⟨0x256daa81, by decide +kernel⟩
  · exact ⟨0x552bd776, by decide +kernel⟩
  · exact ⟨0xac9b5802, by decide +kernel⟩
  · exact ⟨0xd1472012, by decide +kernel⟩

theorem minimalPeriod_step {x : UInt32} (hx : x ≠ 0) :
    step.minimalPeriod x = UInt32.size - 1 := by
  have hpower : power 32 (UInt32.size - 1) = 1 := by decide +kernel
  refine minimalPeriod_eq_of_forall_prime ?_ fun p hp hdvd hback => ?_
  · rw [Function.IsPeriodicPt, Function.IsFixedPt, ← act_power (k := 32) (by decide), hpower,
      act_one]
  · obtain ⟨u, hu⟩ := exists_unit (mem_of_prime_dvd hp hdvd)
    have hlt : (UInt32.size - 1) / p < 2 ^ 32 := Nat.lt_of_le_of_lt (Nat.div_le_self _ p) (by decide)
    exact hx (eq_zero_of_iterate_eq hlt hu hback)

theorem iterate_next (x : UInt32) (n : Nat) :
    (fun r : Random => r.next.2)^[n] ⟨x⟩ = ⟨step^[n] x⟩ := by
  have hnext : Function.Semiconj Random.mk step fun r => r.next.2 := fun _ => rfl
  exact ((hnext.iterate_right n).eq x).symm

/-- A word other than zero comes back after `2 ^ 32 - 1` steps, and no earlier. So whatever its seed,
the generator repeats after as many draws as there are words other than zero. -/
theorem every_seed_has_full_period :
    (∀ s : UInt32, s ≠ 0 → ∀ n, step^[n] s = s ↔ UInt32.size - 1 ∣ n) ∧
    ∀ (seed : UInt32) (n : Nat),
      (fun r : Random => r.next.2)^[n] (ofSeed seed) = ofSeed seed ↔ UInt32.size - 1 ∣ n := by
  have hword : ∀ s : UInt32, s ≠ 0 → ∀ n, step^[n] s = s ↔ UInt32.size - 1 ∣ n := by
    intro s hs n
    rw [← minimalPeriod_step hs]
    exact Function.isPeriodicPt_iff_minimalPeriod_dvd
  refine ⟨hword, fun seed n => ?_⟩
  rw [ofSeed, iterate_next, Random.mk.injEq]
  exact hword _ (nonzero_ne_zero seed) n

/-- A fifth of the period is no period. -/
theorem every_seed_has_full_period_one :
    (1 : UInt32) ≠ 0 ∧ step^[4294967295] 1 = 1 ∧ step^[858993459] 1 ≠ 1 := by
  have hone : (1 : UInt32) ≠ 0 := by decide
  have hperiod := every_seed_has_full_period.1 1 hone
  exact ⟨hone, (hperiod _).mpr (by decide), fun hback => absurd ((hperiod _).mp hback) (by decide)⟩

end Random

end Sandfall
