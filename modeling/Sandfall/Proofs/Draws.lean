import Sandfall.Proofs.Book
import Sandfall.Proofs.Lockstep
import Sandfall.Proofs.Tallies
import Sandfall.Proofs.Values
import Mathlib.Algebra.Order.Floor.Div
import Mathlib.Data.Set.Card

/-! What may be drawn. A step of the generator is linear over xor, so it takes different words to
different words, and none but zero to zero. A number below `n` is to `n` as the word is to all
words, rounded down; so each is drawn by as many words as any other, as near as may be. And a draw
succeeds for the fractions below its chance and for no others. -/

namespace Sandfall

namespace Random

theorem step_xor (x y : UInt32) : step (x ^^^ y) = step x ^^^ step y := by
  have hleft : ∀ x y k : UInt32,
      (x ^^^ y) ^^^ ((x ^^^ y) <<< k) = (x ^^^ (x <<< k)) ^^^ (y ^^^ (y <<< k)) := by
    intro x y k
    rw [UInt32.shiftLeft_xor]
    ac_rfl
  have hright : ∀ x y k : UInt32,
      (x ^^^ y) ^^^ ((x ^^^ y) >>> k) = (x ^^^ (x >>> k)) ^^^ (y ^^^ (y >>> k)) := by
    intro x y k
    rw [UInt32.shiftRight_xor]
    ac_rfl
  simp only [step]
  rw [hleft x y 13, hright _ _ 17, hleft _ _ 5]

/-- If two words came to one, the word of the bits in which they differ would come to zero. -/
theorem step_injective : Function.Injective step := by
  intro x y hsame
  by_contra hne
  have hzero : step (x ^^^ y) = 0 := by
    rw [step_xor, hsame, UInt32.xor_self]
  exact step_ne_zero (fun h => hne (UInt32.xor_eq_zero_iff.mp h)) hzero

theorem exists_next_eq (w : UInt32) : ∃ r : Random, r.next.1 = w := by
  have : Finite UInt32 := Finite.of_injective UInt32.toFin fun _ _ => UInt32.toFin_inj.mp
  obtain ⟨x, hx⟩ := Finite.surjective_of_injective step_injective w
  exact ⟨⟨x⟩, hx⟩

inductive Request where
  | word
  | unit
  | below (n : Nat)
  | chance (p : Binary32)
  | setState (s : UInt32)

def follow (r : Random) : Request → Random
  | .word => r.next.2
  | .unit => r.unit.2
  | .below n => (r.below n).2
  | .chance p => (r.chance p).2
  | .setState s => .ofSeed s

def followAll (r : Random) (qs : List Request) : Random := qs.foldl follow r

theorem follow_ne_zero {r : Random} (h : r.state ≠ 0) (q : Request) : (r.follow q).state ≠ 0 := by
  cases q with
  | setState s => exact nonzero_ne_zero s
  | _ => exact step_ne_zero h

theorem followAll_ne_zero {r : Random} (h : r.state ≠ 0) (qs : List Request) :
    (r.followAll qs).state ≠ 0 := by
  induction qs generalizing r with
  | nil => exact h
  | cons q qs ih => exact ih (follow_ne_zero h q)

section Below

variable {n v : Nat}

theorem scaled_eq_iff (hn : 0 < n) {w : Nat} :
    w * n / UInt32.size = v ↔
      v * UInt32.size ⌈/⌉ n ≤ w ∧ w < (v + 1) * UInt32.size ⌈/⌉ n := by
  rw [Nat.div_eq_iff (by decide), ceilDiv_le_iff_le_mul hn, ← not_le, ceilDiv_le_iff_le_mul hn,
    Nat.mul_comm n w]
  have hsize : UInt32.size = 4294967296 := rfl
  rw [hsize]
  omega

/-- A span of `m` numbers, cut into steps of `n` each, holds `m / n` of them, rounded down or up. -/
theorem ceilDiv_add_cases (hn : 0 < n) (a m : Nat) :
    (a + m) ⌈/⌉ n = a ⌈/⌉ n + m / n ∨ (a + m) ⌈/⌉ n = a ⌈/⌉ n + m ⌈/⌉ n := by
  have hsum : a + m + n - 1 = (a + n - 1) + m := by omega
  simp only [Nat.ceilDiv_eq_add_pred_div]
  rw [hsum, Nat.add_div hn]
  split_ifs with hcarry
  · right
    have hlt := Nat.mod_lt (a + n - 1) hn
    have hup : (m + n - 1) / n = m / n + 1 := by
      refine Nat.div_eq_of_lt_le ?_ ?_
      · have := Nat.div_add_mod m n
        rw [Nat.add_mul, Nat.mul_comm]
        omega
      · have := Nat.div_add_mod m n
        have := Nat.mod_lt m hn
        rw [Nat.add_mul, Nat.add_mul, Nat.mul_comm]
        omega
    rw [hup, Nat.add_assoc]
  · exact .inl rfl

theorem toNat_image_drawing (hn : 0 < n) (hv : v < n) :
    UInt32.toNat '' {w | ∃ r : Random, r.next.1 = w ∧ (r.below n).1 = v}
      = (Finset.Ico (v * UInt32.size ⌈/⌉ n) ((v + 1) * UInt32.size ⌈/⌉ n) : Set Nat) := by
  ext m
  rw [Finset.coe_Ico, Set.mem_Ico, ← scaled_eq_iff hn]
  constructor
  · rintro ⟨w, ⟨r, rfl, hdraw⟩, rfl⟩
    exact hdraw
  · intro hm
    have hword : m < UInt32.size := by
      have hbound := ((scaled_eq_iff hn).mp hm).2
      have htop : (v + 1) * UInt32.size ⌈/⌉ n ≤ UInt32.size := by
        rw [ceilDiv_le_iff_le_mul hn]
        exact Nat.mul_le_mul_right _ hv
      omega
    obtain ⟨r, hr⟩ := exists_next_eq (UInt32.ofNat m)
    have hback : (UInt32.ofNat m).toNat = m := UInt32.toNat_ofNat_of_lt' hword
    refine ⟨_, ⟨r, hr, ?_⟩, hback⟩
    rw [below, hr, hback, hm]

/-- Each number is drawn by its share of the words, rounded down or up. -/
theorem ncard_drawing (hn : 0 < n) (hv : v < n) :
    {w | ∃ r : Random, r.next.1 = w ∧ (r.below n).1 = v}.ncard = UInt32.size / n ∨
      {w | ∃ r : Random, r.next.1 = w ∧ (r.below n).1 = v}.ncard = UInt32.size ⌈/⌉ n := by
  have hinjective : Function.Injective UInt32.toNat := fun _ _ => UInt32.toNat_inj.mp
  rw [← Set.ncard_image_of_injective _ hinjective, toNat_image_drawing hn hv, Set.ncard_coe_finset,
    Nat.card_Ico, Nat.add_mul, Nat.one_mul]
  rcases ceilDiv_add_cases hn (v * UInt32.size) UInt32.size with hspan | hspan
  · exact .inl (by rw [hspan, Nat.add_sub_cancel_left])
  · exact .inr (by rw [hspan, Nat.add_sub_cancel_left])

end Below

/-- A draw succeeds if the top 24 bits of its word are below the chance of all their values. -/
theorem chance_eq_true_iff {p : Binary32} (hp : p.isProbability) (r : Random) :
    (r.chance p).1 = true ↔ ((r.next.1.toNat / 256 : Nat) : ℚ) < p.value * 2 ^ 24 := by
  have hword := r.next.1.toNat_lt
  have hbits : r.next.1.toNat / 256 < 2 ^ 24 := by omega
  have hunit : (0 : ℚ) < 2 ^ 24 := by positivity
  have hdrawn : (r.chance p).1 = (Binary32.ofFraction (r.next.1.toNat / 256)).lt p := rfl
  rw [hdrawn, Binary32.lt_iff_value_lt (Binary32.ofFraction_isFinite hbits)
    (Binary32.isFinite_of_isProbability hp), Binary32.value_ofFraction hbits, div_lt_iff₀ hunit]

end Random

namespace Firing

variable {b : RuleBook} {a : Actor} {r : CompiledRule} {s : Scene}

/-- The rule, tried alone, is counted as fired. -/
def Fires (b : RuleBook) (r : CompiledRule) (a : Actor) (s : Scene) : Prop :=
  (tryRules b a [r] s).2.tally.fired = s.tally.fired + 1

theorem fires_iff : Fires b r a s ↔ (s.random.chance r.chance).1 = true := by
  have hdrawn : (s.countAttempted.chance r.chance).1 = (s.random.chance r.chance).1 := rfl
  simp only [Fires, tryRules, hdrawn]
  split_ifs with hpassed
  · have hfire := congrArg Tally.fired (fire_tally (b := b) (r := r) (a := a)
      (s.countAttempted.chance r.chance).2.countFired)
    generalize fire b r a (s.countAttempted.chance r.chance).2.countFired = f at hfire ⊢
    obtain ⟨flow, t⟩ := f
    cases flow <;> exact iff_of_true hfire hpassed
  · exact iff_of_false (Nat.ne_of_lt (Nat.lt_succ_self s.tally.fired)) hpassed

end Firing

namespace Random

/-- A rule fires for the fractions below its chance: always if that is one, never if it is zero. -/
theorem fires_iff_lt_value {r : CompiledRule} (hr : r.chance.isProbability) (b : RuleBook)
    (a : Actor) (s : Scene) : Firing.Fires b r a s ↔
      ((s.random.next.1.toNat / 256 : Nat) : ℚ) < r.chance.value * 2 ^ 24 :=
  Firing.fires_iff.trans (chance_eq_true_iff hr s.random)

/-- Whatever its seed and whatever it has been asked, the state of a generator is not zero, and two
states are never followed by the same. Of the numbers below `n` each is drawn by as many of all words
as any other, up to one. A draw succeeds for as many of the fractions of 24 bits as are below its
chance, so a rule of chance one always fires and a rule of chance zero never. -/
theorem draws_are_in_range_and_fair :
    (∀ (seed : UInt32) (qs : List Request), ((ofSeed seed).followAll qs).state ≠ 0) ∧
    Function.Injective step ∧
    (∀ n, 0 < n → (∀ r : Random, (r.below n).1 < n) ∧
      ∀ v, v < n →
        {w | ∃ r : Random, r.next.1 = w ∧ (r.below n).1 = v}.ncard = UInt32.size / n ∨
          {w | ∃ r : Random, r.next.1 = w ∧ (r.below n).1 = v}.ncard = UInt32.size ⌈/⌉ n) ∧
    (∀ p : Binary32, p.isProbability → ∀ r : Random,
      (r.chance p).1 = true ↔ ((r.next.1.toNat / 256 : Nat) : ℚ) < p.value * 2 ^ 24) ∧
    ∀ (b : RuleBook) (r : CompiledRule) (a : Actor) (s : Scene), r.chance.isProbability →
      (r.chance.value = 1 → Firing.Fires b r a s) ∧
      (r.chance.value = 0 → ¬Firing.Fires b r a s) := by
  refine ⟨fun seed qs => followAll_ne_zero (nonzero_ne_zero seed) qs, step_injective,
    fun n hn => ⟨fun r => below_lt r hn, fun v hv => ncard_drawing hn hv⟩,
    fun p hp r => chance_eq_true_iff hp r, fun b r a s hr => ⟨fun hone => ?_, fun hzero => ?_⟩⟩
  · have hword := s.random.next.1.toNat_lt
    have hbits : s.random.next.1.toNat / 256 < 2 ^ 24 := by omega
    rw [fires_iff_lt_value hr, hone, one_mul]
    exact_mod_cast hbits
  · rw [fires_iff_lt_value hr, hzero, zero_mul, not_lt]
    exact Nat.cast_nonneg _

def idle (chance : Binary32) : CompiledRule where
  chance := chance
  offsets := #[]
  count := 0
  samples := 0
  starts := none
  slots := .replicate 256 noMatch
  outcomes := #[]
  limit := 0
  commit := .immediate
  stamp := false

/-- All words, divided by three, leave one over. -/
theorem draws_are_in_range_and_fair_three :
    ((ofSeed 0).followAll [.word, .setState 0, .below 3, .chance .half]).state ≠ 0 ∧
    (0 < 3 ∧ ((ofSeed 7).below 3).1 < 3 ∧ 2 < 3 ∧
      ({w | ∃ r : Random, r.next.1 = w ∧ (r.below 3).1 = 2}.ncard = UInt32.size / 3 ∨
        {w | ∃ r : Random, r.next.1 = w ∧ (r.below 3).1 = 2}.ncard = UInt32.size ⌈/⌉ 3)) ∧
    (Binary32.half.isProbability = true ∧ (((ofSeed 7).chance .half).1 = true ↔
      (((ofSeed 7).next.1.toNat / 256 : Nat) : ℚ) < Binary32.half.value * 2 ^ 24)) ∧
    ∃ b, RuleBook.compile Catalog.builtin = .ok b ∧
      (Binary32.one.isProbability = true ∧ Binary32.one.value = 1 ∧
        Firing.Fires b (idle .one) ⟨0, 0, 0, 1⟩ default) ∧
      Binary32.zero.isProbability = true ∧ Binary32.zero.value = 0 ∧
        ¬Firing.Fires b (idle .zero) ⟨0, 0, 0, 1⟩ default := by
  obtain ⟨hlive, -, hbelow, hchance, hrule⟩ := draws_are_in_range_and_fair
  obtain ⟨hlt, hfair⟩ := hbelow 3 (by decide)
  obtain ⟨b, hb⟩ := RuleBook.compile_builtin
  refine ⟨hlive 0 _, ⟨by decide, hlt _, by decide, hfair 2 (by decide)⟩,
    ⟨by decide, hchance .half (by decide) _⟩, b, hb,
    ⟨by decide, Binary32.value_one, ?_⟩, by decide, Binary32.value_zero, ?_⟩
  · exact (hrule b (idle .one) _ _ (by decide)).1 Binary32.value_one
  · exact (hrule b (idle .zero) _ _ (by decide)).2 Binary32.value_zero

end Random

end Sandfall
