import Sandfall.Binary32.Decimal
import Sandfall.Json.Token
import Mathlib.Tactic

/-! Numerals are read back as they were written. As text, a numeral with whole digits and no zero
before them is scanned to itself, whatever follows that cannot prolong it. As a number, the numeral
of an integer of 64 bits stands for that integer. -/

namespace Sandfall

namespace Digit

theorem ofChar?_char (d : Digit) : ofChar? d.char = some d := by
  revert d
  decide

theorem char_ne {c : Char} (h : ofChar? c = none) (d : Digit) : d.char ≠ c := by
  rintro rfl
  rw [ofChar?_char] at h
  cases h

theorem value_append (ds : List Digit) (d : Digit) : value (ds ++ [d]) = 10 * value ds + d.val := by
  simp [value, List.foldl_append]

theorem value_ofNat (n : Nat) : value (ofNat n) = n := by
  induction n using ofNat.induct with
  | case1 n h =>
    rw [ofNat, if_pos h]
    simpa [value] using Nat.mod_eq_of_lt h
  | case2 n h ih =>
    rw [ofNat, if_neg h, value_append, ih]
    exact Nat.div_add_mod n 10

/-- Whole digits as they are written: some, and a zero only alone. -/
def Leads (ds : List Digit) : Prop := ∃ d rest, ds = d :: rest ∧ (d.val = 0 → rest = [])

theorem leads_ofNat (n : Nat) : Leads (ofNat n) := by
  induction n using ofNat.induct with
  | case1 n h =>
    rw [ofNat, if_pos h]
    exact ⟨_, [], rfl, fun _ => rfl⟩
  | case2 n h ih =>
    obtain ⟨d, rest, hds, hzero⟩ := ih
    rw [ofNat, if_neg h, hds]
    refine ⟨d, rest ++ [_], rfl, ?_⟩
    intro hd
    have hvalue := value_ofNat (n / 10)
    rw [hds, hzero hd] at hvalue
    simp only [value, List.foldl_cons, List.foldl_nil] at hvalue
    omega

end Digit

namespace Json.Token

theorem digits_append (ds : List Digit) {rest : List Char}
    (h : ∀ c ∈ rest.head?, Digit.ofChar? c = none) :
    digits (Numeral.digitChars ds ++ rest) = (ds, rest) := by
  induction ds with
  | nil =>
    cases rest with
    | nil => rfl
    | cons c rest =>
      have hc := h c rfl
      simp [Numeral.digitChars, digits, hc]
  | cons d ds ih =>
    rw [Numeral.digitChars] at ih
    simp [Numeral.digitChars, digits, Digit.ofChar?_char, ih]

/-- What may follow a numeral without prolonging it. -/
def Stops (rest : List Char) : Prop :=
  ∀ c ∈ rest.head?, Digit.ofChar? c = none ∧ c ≠ '.' ∧ c ≠ 'e' ∧ c ≠ 'E'

theorem whole_append {ds : List Digit} (hds : Digit.Leads ds) {rest : List Char}
    (h : ∀ c ∈ rest.head?, Digit.ofChar? c = none) :
    whole (Numeral.digitChars ds ++ rest) = some (ds, rest) := by
  obtain ⟨d, tail, rfl, hzero⟩ := hds
  rw [whole, digits_append _ h]
  by_cases hd : d.val = 0
  · simp [hzero hd]
  · simp [hd]

/-- A minus is read off the text, and nothing else is before the digits. -/
theorem sign_append {negative : Bool} {ds : List Digit} (hds : Digit.Leads ds) (rest : List Char) :
    sign false ((if negative then ['-'] else []) ++ (Numeral.digitChars ds ++ rest))
      = (negative, Numeral.digitChars ds ++ rest) := by
  cases negative with
  | true => rfl
  | false =>
    obtain ⟨d, tail, rfl, -⟩ := hds
    have hminus := Digit.char_ne (c := '-') (by decide) d
    have hplus := Digit.char_ne (c := '+') (by decide) d
    simp only [Numeral.digitChars, List.map_cons, List.cons_append, Bool.false_eq_true, if_false,
      List.nil_append]
    rw [sign] <;> simpa

def fractionChars (ds : List Digit) : List Char :=
  if ds.isEmpty then [] else '.' :: Numeral.digitChars ds

def exponentChars (e : Option Int) : List Char := (e.map Numeral.exponentChars).getD []

theorem fraction_append {ds : List Digit} {rest : List Char}
    (h : ∀ c ∈ rest.head?, Digit.ofChar? c = none ∧ c ≠ '.') :
    fraction (fractionChars ds ++ rest) = some (ds, rest) := by
  cases ds with
  | nil =>
    cases rest with
    | nil => rfl
    | cons c rest =>
      have hc := (h c rfl).2
      simp only [fractionChars, List.isEmpty_nil, if_true, List.nil_append]
      rw [fraction]
      simpa using hc
  | cons d ds =>
    have hdigits := digits_append (d :: ds) fun c hc => (h c hc).1
    simp [fraction, fractionChars, hdigits]

theorem exponent_append {e : Option Int} {rest : List Char} (h : Stops rest) :
    exponent (exponentChars e ++ rest) = some (e, rest) := by
  cases e with
  | none =>
    cases rest with
    | nil => rfl
    | cons c rest =>
      obtain ⟨-, -, he, hE⟩ := h c rfl
      simp [exponent, exponentChars, he, hE]
  | some e =>
    have hdigits := digits_append (Digit.ofNat e.natAbs) fun c hc => (h c hc).1
    have hempty : (Digit.ofNat e.natAbs).isEmpty = false := by
      obtain ⟨d, tail, hlead, -⟩ := Digit.leads_ofNat e.natAbs
      rw [hlead]
      rfl
    by_cases hneg : e < 0
    · simp [exponent, exponentChars, Numeral.exponentChars, hneg, sign, hdigits, hempty,
        Digit.value_ofNat, abs_of_neg hneg]
    · simp [exponent, exponentChars, Numeral.exponentChars, hneg, sign, hdigits, hempty,
        Digit.value_ofNat, abs_of_nonneg (Int.not_lt.mp hneg)]

/-- What may follow a numeral's digits: the exponent, or what follows the numeral. -/
theorem head_exponentChars {e : Option Int} {rest : List Char} (h : Stops rest) :
    ∀ c ∈ (exponentChars e ++ rest).head?, Digit.ofChar? c = none ∧ c ≠ '.' := by
  cases e with
  | none => exact fun c hc => ⟨(h c hc).1, (h c hc).2.1⟩
  | some e =>
    intro c hc
    obtain rfl : c = 'e' := by simpa [exponentChars, Numeral.exponentChars, eq_comm] using hc
    decide

theorem head_fractionChars {ds : List Digit} {rest : List Char}
    (h : ∀ c ∈ rest.head?, Digit.ofChar? c = none ∧ c ≠ '.') :
    ∀ c ∈ (fractionChars ds ++ rest).head?, Digit.ofChar? c = none := by
  cases ds with
  | nil => exact fun c hc => (h c hc).1
  | cons d ds =>
    intro c hc
    obtain rfl : c = '.' := by simpa [fractionChars, eq_comm] using hc
    decide

theorem numeral_chars {n : Numeral} (hn : Digit.Leads n.whole) {rest : List Char}
    (h : Stops rest) : numeral (n.chars ++ rest) = some (n, rest) := by
  have hsplit : n.chars ++ rest = (if n.negative then ['-'] else [])
      ++ (Numeral.digitChars n.whole
        ++ (fractionChars n.fraction ++ (exponentChars n.exponent ++ rest))) := by
    simp only [Numeral.chars, fractionChars, exponentChars, List.append_assoc]
  have hexp := head_exponentChars (e := n.exponent) h
  rw [hsplit, numeral, sign_append hn]
  simp only [whole_append hn (head_fractionChars hexp), fraction_append hexp, exponent_append h,
    Option.bind_eq_bind, Option.bind_some, Option.pure_def]

theorem exists_chars_eq {n : Numeral} (hn : Digit.Leads n.whole) :
    ∃ c rest, n.chars = c :: rest ∧ (c = '-' ∨ ∃ d : Digit, c = d.char) := by
  obtain ⟨d, tail, hw, -⟩ := hn
  cases hneg : n.negative with
  | true => simp [Numeral.chars, hneg]
  | false => simp [Numeral.chars, hneg, hw, Numeral.digitChars]

end Json.Token

namespace Numeral

theorem gather_ofNat {n : Nat} (h : n < UInt64.size) (ds : List Digit) :
    gather 0 (Digit.ofNat n ++ ds) = gather n ds := by
  induction n using Digit.ofNat.induct generalizing ds with
  | case1 n hn =>
    have hmod : n % 10 = n := Nat.mod_eq_of_lt hn
    simp [Digit.ofNat, hn, gather, hmod, h]
  | case2 n hn ih =>
    have hdiv : 10 * (n / 10) + n % 10 = n := Nat.div_add_mod n 10
    rw [Digit.ofNat, if_neg hn, List.append_assoc, ih (by omega), List.singleton_append, gather,
      if_pos (by rw [hdiv]; exact h), hdiv]

theorem read_ofNat {n : Nat} (h : n < UInt64.size) : (ofNat n).read = some (.integer n) := by
  have hgather : gather 0 (Digit.ofNat n) = (n, []) := by
    simpa [gather] using gather_ofNat h []
  simp [read, ofNat, hgather]

theorem read_ofInt {n : Int} (hlow : -(2 * n) ≤ UInt64.size) (hhigh : n < UInt64.size) :
    (ofInt n).read = some (.integer n) := by
  have hgather : gather 0 (Digit.ofNat n.natAbs) = (n.natAbs, []) := by
    simpa [gather] using gather_ofNat (n := n.natAbs) (by unfold UInt64.size at *; omega) []
  by_cases hneg : n < 0
  · have habs : 0 < n.natAbs ∧ 2 * n.natAbs ≤ UInt64.size := by omega
    simp [read, ofInt, hgather, hneg, habs, abs_of_neg hneg]
  · simp [read, ofInt, hgather, hneg, abs_of_nonneg (Int.not_lt.mp hneg)]

end Numeral

/-! The numeral of a single-precision number. Its whole digits are proper because no span of a
number other than zero reaches down to zero. -/

namespace RoundingSpan

theorem contains_nearest? {tie : TieRule} {s : RoundingSpan} {n : Nat}
    (h : s.nearest? tie = some n) : s.contains n = true := by
  simp only [nearest?] at h
  split at h
  next hlow hhigh => grind
  next hlow _ => exact Option.some.inj h ▸ hlow
  next _ hhigh => exact Option.some.inj h ▸ hhigh
  next => cases h

theorem nearest?_ne_zero {tie : TieRule} {s : RoundingSpan} (hlow : 0 < s.low) {n : Nat}
    (h : s.nearest? tie = some n) : n ≠ 0 := by
  rintro rfl
  have hzero := contains_nearest? h
  simp only [contains, Nat.zero_mul] at hzero
  split_ifs at hzero
  · simp only [Bool.and_eq_true, decide_eq_true_eq] at hzero
    omega
  · simp at hzero

end RoundingSpan

namespace Binary32

theorem mantissa_pos {x : Binary32} (h : x.magnitude ≠ 0) : 0 < x.scaled.mantissa := by
  unfold scaled
  split_ifs with hlow
  · exact Nat.pos_of_ne_zero h
  · exact Nat.add_pos_left (by decide) _

theorem roundingSpan_low_pos {x : Binary32} (h : x.magnitude ≠ 0) (k : Int) :
    0 < (x.roundingSpan.inUnits k).low := by
  have hmantissa := mantissa_pos h
  have hunit : 0 < 1 <<< (x.scaled.exponent - 2).toNat := by
    rw [Nat.one_shiftLeft]
    exact Nat.two_pow_pos _
  simp only [roundingSpan, RoundingSpan.inUnits]
  refine Nat.mul_pos (Nat.mul_pos ?_ hunit) (Nat.pow_pos (by decide))
  split_ifs <;> omega

/-- Only zero is written without a digit other than zero. -/
theorem shortest_coefficient (tie : TieRule) (x : Binary32) :
    (x.shortest tie).coefficient ≠ 0 ∨ (x.shortest tie).exponent = 0 := by
  simp only [shortest]
  split_ifs with hzero
  · exact .inr rfl
  · cases hfound : gridExponents.findSome? fun k =>
        ((x.roundingSpan.inUnits k).nearest? tie).map fun n => Decimal.mk n k with
    | none => exact .inr rfl
    | some d =>
      obtain ⟨k, -, hk⟩ := List.exists_of_findSome?_eq_some hfound
      obtain ⟨n, hn, rfl⟩ := Option.map_eq_some_iff.mp hk
      exact .inl (RoundingSpan.nearest?_ne_zero (roundingSpan_low_pos hzero k) hn)

end Binary32

theorem Digit.leads_take {ds : List Digit} (h : Leads ds) {k : Nat} (hk : 0 < k) :
    Leads (ds.take k) := by
  obtain ⟨d, rest, rfl, hzero⟩ := h
  obtain ⟨k, rfl⟩ := Nat.exists_eq_succ_of_ne_zero hk.ne'
  exact ⟨d, rest.take k, rfl, fun hd => by rw [hzero hd, List.take_nil]⟩

theorem Digit.leads_append {n : Nat} (hn : n ≠ 0) (ds : List Digit) : Leads (ofNat n ++ ds) := by
  obtain ⟨d, rest, hds, hzero⟩ := leads_ofNat n
  refine ⟨d, rest ++ ds, by rw [hds]; rfl, ?_⟩
  intro hd
  have hvalue := value_ofNat n
  rw [hds, hzero hd] at hvalue
  simp only [value, List.foldl_cons, List.foldl_nil] at hvalue
  omega

theorem Decimal.leads_positional {d : Decimal} (h : d.coefficient ≠ 0 ∨ d.exponent = 0) :
    Digit.Leads d.positional.1 := by
  simp only [positional]
  split_ifs with hsmall hpoint
  · exact ⟨Digit.zero, [], rfl, fun _ => rfl⟩
  · exact Digit.leads_take (Digit.leads_ofNat _) (by omega)
  · rcases h with h | h
    · exact Digit.leads_append h _
    · rw [h, Int.toNat_zero, List.replicate_zero, List.append_nil]
      exact Digit.leads_ofNat _

theorem Binary32.leads_numeral? {x : Binary32} {n : Numeral} (h : x.numeral? = some n) :
    Digit.Leads n.whole := by
  simp only [numeral?] at h
  split_ifs at h
  · obtain rfl := Option.some.inj h
    exact Decimal.leads_positional (x.shortest_coefficient .even)
  · obtain rfl := Option.some.inj h
    exact Decimal.leads_positional (x.shortest_coefficient .even)
  · obtain rfl := Option.some.inj h
    exact Digit.leads_take (Digit.leads_ofNat _) Nat.one_pos

end Sandfall
