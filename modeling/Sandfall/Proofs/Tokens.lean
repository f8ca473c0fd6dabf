import Sandfall.Json.Text
import Sandfall.Proofs.Numerals

/-! Tokens are scanned as they were written. Quoted text comes back character by character through
its escapes; every other token is told apart by its first character. A numeral needs something
behind it that does not prolong it, so the tokens of a tree are scanned along the tree, where a
comma or a closing bracket follows each value. -/

namespace Sandfall.Json

namespace Token

theorem hexValue?_hexDigit {n : Nat} (h : n < 16) : hexValue? (hexDigit n) = some n := by
  have hall : ∀ n < 16, hexValue? (hexDigit n) = some n := by decide
  exact hall n h

theorem quoted_short {e : Char} {n : Nat} (he : unescape? e = some n) (rest : List Char) :
    quoted ('\\' :: e :: rest) = (quoted rest).map fun p => (n :: p.1, p.2) := by
  have hu : e ≠ 'u' := by
    rintro rfl
    simp [unescape?] at he
  rw [quoted]
  · rw [he]
    cases quoted rest <;> rfl
  · exact fun _ _ _ _ _ h => absurd h hu

theorem quoted_plain {c : Char} (hquote : c ≠ '"') (hslash : c ≠ '\\') (hcontrol : ¬c.toNat < 32)
    (rest : List Char) : quoted (c :: rest) = (quoted rest).map fun p => (c.toNat :: p.1, p.2) := by
  rw [quoted, if_neg hcontrol]
  · cases quoted rest <;> rfl
  · exact hquote
  · exact fun _ _ _ _ _ h => absurd h hslash
  · exact fun _ _ h => absurd h hslash

theorem quoted_escape (c : Char) (rest : List Char) :
    quoted (escape c ++ rest) = (quoted rest).map fun p => (c.toNat :: p.1, p.2) := by
  unfold escape
  split_ifs with hquote hslash h8 h9 h10 h12 h13 hcontrol
  · subst hquote
    exact quoted_short rfl rest
  · subst hslash
    exact quoted_short rfl rest
  · rw [h8]
    exact quoted_short rfl rest
  · rw [h9]
    exact quoted_short rfl rest
  · rw [h10]
    exact quoted_short rfl rest
  · rw [h12]
    exact quoted_short rfl rest
  · rw [h13]
    exact quoted_short rfl rest
  · have hhex : hex4? '0' '0' (hexDigit (c.toNat / 16)) (hexDigit (c.toNat % 16))
        = some c.toNat := by
      have hzero : hexValue? '0' = some 0 := rfl
      simp only [hex4?, hzero, hexValue?_hexDigit (show c.toNat / 16 < 16 by omega),
        hexValue?_hexDigit (show c.toNat % 16 < 16 by omega), Option.bind_eq_bind,
        Option.bind_some, Option.pure_def, Option.some.injEq]
      omega
    simp only [List.cons_append, List.nil_append]
    rw [quoted, hhex]
    cases quoted rest <;> rfl
  · exact quoted_plain hquote hslash hcontrol rest

theorem quoted_flatMap (cs rest : List Char) :
    quoted (cs.flatMap escape ++ '"' :: rest) = some (cs.map Char.toNat, rest) := by
  induction cs with
  | nil => rfl
  | cons c cs ih =>
    rw [List.flatMap_cons, List.append_assoc, quoted_escape, ih]
    rfl

theorem not_surrogate (c : Char) : isLeading c.toNat = false ∧ isTrailing c.toNat = false := by
  have hvalid : c.toNat < 0xD800 ∨ 0xDFFF < c.toNat ∧ c.toNat < 0x110000 := c.valid
  constructor
  · simp only [isLeading, Bool.and_eq_false_iff, decide_eq_false_iff_not]
    omega
  · simp only [isTrailing, Bool.and_eq_false_iff, decide_eq_false_iff_not]
    omega

theorem paired_toNat (cs : List Char) : paired (cs.map Char.toNat) = some cs := by
  induction cs with
  | nil => rfl
  | cons c cs ih =>
    obtain ⟨hleading, htrailing⟩ := not_surrogate c
    cases cs with
    | nil => simp [paired, hleading, htrailing, Char.ofNat_toNat]
    | cons d cs =>
      rw [List.map_cons] at ih
      simp [paired, hleading, htrailing, Char.ofNat_toNat, ih]

theorem label_toNat (s : String) : label (s.toList.map Char.toNat) = some s := by
  rw [label, paired_toNat, Option.map_some, String.ofList_toList]

/-- A token that its text stands for: numerals have proper whole digits, quoted text is text. -/
def Written : Token → Prop
  | .number n => Digit.Leads n.whole
  | .string s => s.isSome
  | _ => True

/-- No blank, mark, quote or word begins with a character that begins a numeral. -/
theorem numeral_begins {c : Char} (h : c = '-' ∨ ∃ d : Digit, c = d.char) :
    isBlank c = false ∧ mark? c = none ∧ c ≠ '"' ∧ ∀ rest, word? (c :: rest) = none := by
  have hfirst : ∀ c : Char, c ≠ 'n' → c ≠ 't' → c ≠ 'f' → ∀ rest, word? (c :: rest) = none := by
    intro c hn ht hf rest
    simp [word?, hn, ht, hf]
  rcases h with rfl | ⟨d, rfl⟩
  · exact ⟨by decide, by decide, by decide, hfirst _ (by decide) (by decide) (by decide)⟩
  · have hblank : ∀ d : Digit, isBlank d.char = false ∧ mark? d.char = none ∧ d.char ≠ '"' ∧
        d.char ≠ 'n' ∧ d.char ≠ 't' ∧ d.char ≠ 'f' := by decide
    obtain ⟨h1, h2, h3, hn, ht, hf⟩ := hblank d
    exact ⟨h1, h2, h3, hfirst _ hn ht hf⟩

theorem next?_number {n : Numeral} (hn : Digit.Leads n.whole) {rest : List Char}
    (h : Stops rest) : next? (n.chars ++ rest) = some (.number n, rest) := by
  have hscan := numeral_chars hn h
  obtain ⟨c, tail, hchars, hc⟩ := exists_chars_eq hn
  obtain ⟨-, hmark, hquote, hword⟩ := numeral_begins hc
  rw [hchars, List.cons_append] at hscan ⊢
  simp [next?, hmark, hquote, hword, hscan]

theorem next?_string (s : String) (rest : List Char) :
    next? (chars (.string (some s)) ++ rest) = some (.string (some s), rest) := by
  have hquoted := quoted_flatMap s.toList rest
  simp [chars, next?, mark?, hquoted, label_toNat]

theorem next?_chars {t : Token} (ht : t.Written) {rest : List Char}
    (h : ∀ n, t = .number n → Stops rest) : next? (t.chars ++ rest) = some (t, rest) := by
  cases t with
  | number n => exact next?_number ht (h n rfl)
  | string s =>
    obtain ⟨s, rfl⟩ := Option.isSome_iff_exists.mp ht
    exact next?_string s rest
  | bool b => cases b <;> rfl
  | _ => rfl

theorem exists_chars {t : Token} (ht : t.Written) :
    ∃ c tail, t.chars = c :: tail ∧ isBlank c = false := by
  cases t with
  | number n =>
    obtain ⟨c, tail, hchars, hc⟩ := exists_chars_eq ht
    exact ⟨c, tail, hchars, (numeral_begins hc).1⟩
  | bool b => cases b <;> exact ⟨_, _, rfl, by decide⟩
  | _ => exact ⟨_, _, rfl, by decide⟩

/-- Scanning reads a written token and goes on behind it. -/
theorem scan_chars {t : Token} (ht : t.Written) {rest : List Char}
    (h : ∀ n, t = .number n → Stops rest) :
    scan (t.chars ++ rest) = (scan rest).map (t :: ·) := by
  have hnext := next?_chars ht h
  obtain ⟨c, tail, hchars, hblank⟩ := exists_chars ht
  rw [hchars, List.cons_append] at hnext ⊢
  rw [scan, if_neg (by simp [hblank])]
  split
  · next hnone => simp [hnext] at hnone
  · next t' rest' hsome =>
    rw [hnext] at hsome
    cases hsome
    rfl

end Token

end Sandfall.Json
