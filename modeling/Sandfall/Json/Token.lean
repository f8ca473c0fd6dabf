import Sandfall.Json

/-!
The tokens of JSON text. Blanks are space, tab, line feed and carriage return; a control character
inside quotes, a leading zero and a point or exponent without digits are refused. `Token.chars`
writes a token, `Token.scan` reads them all.
-/

namespace Sandfall.Json

inductive Token where
  | openBrace
  | closeBrace
  | openBracket
  | closeBracket
  | comma
  | colon
  | null
  | bool (b : Bool)
  | number (n : Numeral)
  | string (s : Label)
deriving DecidableEq

namespace Token

def hexDigit (n : Nat) : Char :=
  Char.ofNat (if n < 10 then 48 + n else 87 + n)

def hexValue? (c : Char) : Option Nat :=
  let n := c.toNat
  if 48 ≤ n ∧ n < 58 then some (n - 48)
  else if 97 ≤ n ∧ n < 103 then some (n - 87)
  else if 65 ≤ n ∧ n < 71 then some (n - 55)
  else none

/-- Quotes, backslashes and control characters are escaped, and nothing else. -/
def escape (c : Char) : List Char :=
  if c = '"' then ['\\', '"']
  else if c = '\\' then ['\\', '\\']
  else if c.toNat = 8 then ['\\', 'b']
  else if c.toNat = 9 then ['\\', 't']
  else if c.toNat = 10 then ['\\', 'n']
  else if c.toNat = 12 then ['\\', 'f']
  else if c.toNat = 13 then ['\\', 'r']
  else if c.toNat < 32 then ['\\', 'u', '0', '0', hexDigit (c.toNat / 16), hexDigit (c.toNat % 16)]
  else [c]

/-- The character after a backslash, other than `u`. -/
def unescape? (c : Char) : Option Nat :=
  match c with
  | '"' => some 34
  | '\\' => some 92
  | '/' => some 47
  | 'b' => some 8
  | 'f' => some 12
  | 'n' => some 10
  | 'r' => some 13
  | 't' => some 9
  | _ => none

def hex4? (a b c d : Char) : Option Nat := do
  let a ← hexValue? a
  let b ← hexValue? b
  let c ← hexValue? c
  let d ← hexValue? d
  return ((a * 16 + b) * 16 + c) * 16 + d

/-- The code points up to the closing quote, surrogates among them, and what follows it. -/
def quoted : List Char → Option (List Nat × List Char)
  | [] => none
  | '"' :: r => some ([], r)
  | '\\' :: 'u' :: a :: b :: c :: d :: r =>
    match hex4? a b c d, quoted r with
    | some n, some (t, rest) => some (n :: t, rest)
    | _, _ => none
  | '\\' :: e :: r =>
    match unescape? e, quoted r with
    | some n, some (t, rest) => some (n :: t, rest)
    | _, _ => none
  | c :: r =>
    if c.toNat < 32 then none
    else match quoted r with
      | some (t, rest) => some (c.toNat :: t, rest)
      | none => none

def isLeading (n : Nat) : Bool := 0xD800 ≤ n && n < 0xDC00

def isTrailing (n : Nat) : Bool := 0xDC00 ≤ n && n < 0xE000

/-- Joins each leading surrogate to the trailing one behind it; one that stands alone has no
text. -/
def paired : List Nat → Option (List Char)
  | [] => some []
  | n :: m :: r =>
    if isLeading n then
      if isTrailing m then
        (paired r).map (Char.ofNat (0x10000 + (n - 0xD800) * 0x400 + (m - 0xDC00)) :: ·)
      else none
    else if isTrailing n then none
    else (paired (m :: r)).map (Char.ofNat n :: ·)
  | [n] => if isLeading n || isTrailing n then none else some [Char.ofNat n]

def label (codes : List Nat) : Label := (paired codes).map String.ofList

def digits : List Char → List Digit × List Char
  | [] => ([], [])
  | c :: r =>
    match Digit.ofChar? c with
    | some d => ((d :: (digits r).1), (digits r).2)
    | none => ([], c :: r)

/-- A point needs a digit behind it. -/
def fraction : List Char → Option (List Digit × List Char)
  | '.' :: r =>
    let (ds, rest) := digits r
    if ds.isEmpty then none else some (ds, rest)
  | r => some ([], r)

/-- A sign and what follows it; only an exponent may have a plus. -/
def sign (plus : Bool) : List Char → Bool × List Char
  | '-' :: r => (true, r)
  | '+' :: r => if plus then (false, r) else (false, '+' :: r)
  | r => (false, r)

/-- An exponent needs a digit. -/
def exponent : List Char → Option (Option Int × List Char)
  | [] => some (none, [])
  | c :: r =>
    if c = 'e' || c = 'E' then
      let (negative, r) := sign true r
      let (ds, rest) := digits r
      let n : Int := Digit.value ds
      if ds.isEmpty then none else some (some (if negative then -n else n), rest)
    else some (none, c :: r)

/-- Whole digits: a zero has no digit behind it. -/
def whole (cs : List Char) : Option (List Digit × List Char) :=
  match digits cs with
  | ([], _) => none
  | (d :: ds, r) => if d.val = 0 && !ds.isEmpty then none else some (d :: ds, r)

def numeral (cs : List Char) : Option (Numeral × List Char) := do
  let (negative, r) := sign false cs
  let (w, r) ← whole r
  let (f, r) ← fraction r
  let (e, r) ← exponent r
  return (⟨negative, w, f, e⟩, r)

theorem quoted_length (cs : List Char) {t : List Nat} {r : List Char}
    (h : quoted cs = some (t, r)) : r.length < cs.length := by
  fun_induction quoted cs generalizing t r <;> simp_all <;> grind

theorem digits_length (cs : List Char) :
    (digits cs).1.length + (digits cs).2.length = cs.length := by
  fun_induction digits cs <;> simp_all <;> omega

theorem sign_length (plus : Bool) (cs : List Char) : (sign plus cs).2.length ≤ cs.length := by
  unfold sign
  split <;> simp
  split <;> simp

theorem fraction_length {cs r : List Char} {ds : List Digit}
    (h : fraction cs = some (ds, r)) : r.length ≤ cs.length := by
  unfold fraction at h
  split at h
  · rename_i s
    have := digits_length s
    simp only at h
    split at h <;> simp_all
    grind
  · simp_all

theorem exponent_length {cs r : List Char} {e : Option Int}
    (h : exponent cs = some (e, r)) : r.length ≤ cs.length := by
  unfold exponent at h
  split at h
  · simp_all
  · rename_i c s
    split at h
    · have hs := sign_length true s
      have hd := digits_length (sign true s).2
      simp only at h
      split at h
      · simp at h
      · simp only [Option.some.injEq, Prod.mk.injEq] at h
        obtain ⟨-, rfl⟩ := h
        simp only [List.length_cons]
        omega
    · simp_all

theorem whole_length {cs r : List Char} {ds : List Digit}
    (h : whole cs = some (ds, r)) : r.length < cs.length := by
  unfold whole at h
  have hd := digits_length cs
  split at h
  · simp at h
  · rename_i heq
    rw [heq] at hd
    split at h <;> simp_all
    omega

theorem numeral_length {cs r : List Char} {n : Numeral}
    (h : numeral cs = some (n, r)) : r.length < cs.length := by
  simp only [numeral, Option.bind_eq_bind, Option.bind_eq_some_iff, Option.pure_def,
    Option.some.injEq, Prod.mk.injEq, Prod.exists] at h
  obtain ⟨w, r1, h1, f, r2, h2, e, r3, h3, -, rfl⟩ := h
  have := sign_length false cs
  have := whole_length h1
  have := fraction_length h2
  have := exponent_length h3
  omega

def isBlank (c : Char) : Bool := c = ' ' || c = '\t' || c = '\n' || c = '\r'

/-- A token that is a single character. -/
def mark? (c : Char) : Option Token :=
  match c with
  | '\x7b' => some .openBrace
  | '\x7d' => some .closeBrace
  | '[' => some .openBracket
  | ']' => some .closeBracket
  | ',' => some .comma
  | ':' => some .colon
  | _ => none

def word? : List Char → Option (Token × List Char)
  | 'n' :: 'u' :: 'l' :: 'l' :: r => some (.null, r)
  | 't' :: 'r' :: 'u' :: 'e' :: r => some (.bool true, r)
  | 'f' :: 'a' :: 'l' :: 's' :: 'e' :: r => some (.bool false, r)
  | _ => none

/-- The first token of a text that does not start with a blank. -/
def next? (cs : List Char) : Option (Token × List Char) :=
  match cs with
  | [] => none
  | c :: r =>
    match mark? c with
    | some t => some (t, r)
    | none =>
      if c = '"' then (quoted r).map fun (codes, rest) => (.string (label codes), rest)
      else match word? (c :: r) with
        | some w => some w
        | none => (numeral (c :: r)).map fun (n, rest) => (.number n, rest)

theorem next?_length {cs r : List Char} {t : Token}
    (h : next? cs = some (t, r)) : r.length < cs.length := by
  unfold next? at h
  split at h
  · simp at h
  · rename_i c s
    split at h
    · simp_all
    · split at h
      · simp only [Option.map_eq_some_iff, Prod.mk.injEq, Prod.exists] at h
        obtain ⟨codes, rest, hq, -, rfl⟩ := h
        have := quoted_length s hq
        simp only [List.length_cons]
        omega
      · split at h
        · rename_i w hw
          unfold word? at hw
          split at hw <;> simp_all <;> grind
        · simp only [Option.map_eq_some_iff, Prod.mk.injEq, Prod.exists] at h
          obtain ⟨n, rest, hn, -, rfl⟩ := h
          exact numeral_length hn

def scan (cs : List Char) : Option (List Token) :=
  match cs with
  | [] => some []
  | c :: r =>
    if isBlank c then scan r
    else
      match h : next? (c :: r) with
      | none => none
      | some (t, rest) =>
        have := next?_length h
        (scan rest).map (t :: ·)
termination_by cs.length
decreasing_by
  · exact Nat.lt_succ_self _
  · exact this

def chars : Token → List Char
  | .openBrace => ['\x7b']
  | .closeBrace => ['\x7d']
  | .openBracket => ['[']
  | .closeBracket => [']']
  | .comma => [',']
  | .colon => [':']
  | .null => ['n', 'u', 'l', 'l']
  | .bool true => ['t', 'r', 'u', 'e']
  | .bool false => ['f', 'a', 'l', 's', 'e']
  | .number n => n.chars
  | .string s => '"' :: (s.getD "").toList.flatMap escape ++ ['"']

end Token

end Sandfall.Json
