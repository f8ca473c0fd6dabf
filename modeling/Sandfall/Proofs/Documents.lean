import Sandfall.Json.Decode
import Sandfall.Proofs.Tokens

/-! A document read is the document written. The trees with a text of their own are the sound ones:
quoted text is text, and numerals are proper and within range. Scanning goes through a tree value
by value, and the machine that reads its tokens delivers it into the innermost open bracket. How
deep a tree nests is all that a reader with so many brackets to open asks besides. -/

namespace Sandfall.Json

mutual

/-- All labels are text, and all numerals are proper and can be read. -/
def Sound : Json → Prop
  | .number n => Digit.Leads n.whole ∧ n.read.isSome
  | .string s => s.isSome
  | .array items => AllSound items
  | .object members => MembersSound members
  | _ => True

def AllSound : List Json → Prop
  | [] => True
  | j :: js => j.Sound ∧ AllSound js

def MembersSound : List (Label × Json) → Prop
  | [] => True
  | (k, j) :: ms => k.isSome ∧ j.Sound ∧ MembersSound ms

end

mutual

/-- The number of brackets open at once. -/
def depth : Json → Nat
  | .array items => depthOfAll items + 1
  | .object members => depthOfMembers members + 1
  | _ => 0

def depthOfAll : List Json → Nat
  | [] => 0
  | j :: js => max j.depth (depthOfAll js)

def depthOfMembers : List (Label × Json) → Nat
  | [] => 0
  | (_, j) :: ms => max j.depth (depthOfMembers ms)

end

theorem allSound_iff {js : List Json} : AllSound js ↔ ∀ j ∈ js, j.Sound := by
  induction js with
  | nil => simp [AllSound]
  | cons j js ih => simp [AllSound, ih]

theorem membersSound_iff {ms : List (Label × Json)} :
    MembersSound ms ↔ ∀ m ∈ ms, m.1.isSome ∧ m.2.Sound := by
  induction ms with
  | nil => simp [MembersSound]
  | cons m ms ih => simp [MembersSound, ih, and_assoc]

theorem depthOfAll_le_iff {js : List Json} {n : Nat} :
    depthOfAll js ≤ n ↔ ∀ j ∈ js, j.depth ≤ n := by
  induction js with
  | nil => simp [depthOfAll]
  | cons j js ih => simp [depthOfAll, ih]

theorem depthOfMembers_le_iff {ms : List (Label × Json)} {n : Nat} :
    depthOfMembers ms ≤ n ↔ ∀ m ∈ ms, m.2.depth ≤ n := by
  induction ms with
  | nil => simp [depthOfMembers]
  | cons m ms ih => simp [depthOfMembers, ih]

mutual

theorem fits_of_sound {j : Json} (hj : j.Sound) {room : Nat} (h : j.depth ≤ room) :
    j.fits room = true := by
  match j, room with
  | .null, _ | .bool _, _ => rfl
  | .number _, _ => exact hj.2
  | .string _, _ => exact hj
  | .array _, 0 | .object _, 0 => exact absurd h (Nat.not_succ_le_zero _)
  | .array items, room + 1 => exact allFit_of_sound hj (Nat.le_of_succ_le_succ h)
  | .object members, room + 1 => exact membersFit_of_sound hj (Nat.le_of_succ_le_succ h)

theorem allFit_of_sound {js : List Json} (hjs : AllSound js) {room : Nat}
    (h : depthOfAll js ≤ room) : allFit room js = true := by
  match js with
  | [] => rfl
  | j :: js =>
    rw [depthOfAll, max_le_iff] at h
    rw [allFit, fits_of_sound hjs.1 h.1, allFit_of_sound hjs.2 h.2]
    rfl

theorem membersFit_of_sound {ms : List (Label × Json)} (hms : MembersSound ms) {room : Nat}
    (h : depthOfMembers ms ≤ room) : membersFit room ms = true := by
  match ms with
  | [] => rfl
  | (k, j) :: ms =>
    rw [depthOfMembers, max_le_iff] at h
    rw [membersFit, hms.1, fits_of_sound hms.2.1 h.1, membersFit_of_sound hms.2.2 h.2]
    rfl

end

/-! Scanning. -/

def spell (ts : List Token) : List Char := ts.flatMap Token.chars

/-- The token ends where its text does, whatever follows. -/
def standsAlone : Token → Bool
  | .number _ => false
  | .string s => s.isSome
  | _ => true

theorem scan_alone (t : Token) (ht : standsAlone t = true) (ts : List Token) (rest : List Char) :
    Token.scan (spell (t :: ts) ++ rest) = (Token.scan (spell ts ++ rest)).map (t :: ·) := by
  have hwritten : t.Written := by
    cases t with
    | number n => cases ht
    | string s => exact ht
    | _ => trivial
  rw [spell, List.flatMap_cons, List.append_assoc]
  refine Token.scan_chars hwritten ?_
  rintro n rfl
  cases ht

/-- What follows a value does not prolong it. -/
theorem stops_itemTokens (js : List Json) (rest : List Char) :
    Token.Stops (spell (itemTokens js) ++ rest) := by
  intro c hc
  cases js with
  | nil =>
    obtain rfl : c = ']' := by simpa [itemTokens, spell, Token.chars, eq_comm] using hc
    decide
  | cons j js =>
    obtain rfl : c = ',' := by simpa [itemTokens, spell, Token.chars, eq_comm] using hc
    decide

theorem stops_memberTokens (ms : List (Label × Json)) (rest : List Char) :
    Token.Stops (spell (memberTokens ms) ++ rest) := by
  intro c hc
  cases ms with
  | nil =>
    obtain rfl : c = '\x7d' := by simpa [memberTokens, spell, Token.chars, eq_comm] using hc
    decide
  | cons m ms =>
    obtain rfl : c = ',' := by simpa [memberTokens, spell, Token.chars, eq_comm] using hc
    decide

theorem spell_append (ts us : List Token) : spell (ts ++ us) = spell ts ++ spell us :=
  List.flatMap_append

mutual

/-- Scanning goes through the text of a value and on behind it. -/
theorem scan_tokens {j : Json} (hj : j.Sound) {rest : List Char} (h : Token.Stops rest) :
    Token.scan (spell j.tokens ++ rest) = (Token.scan rest).map (j.tokens ++ ·) := by
  match j with
  | .null => exact scan_alone _ rfl [] rest
  | .bool b => exact scan_alone _ rfl [] rest
  | .string s => exact scan_alone (.string s) hj [] rest
  | .number n =>
    rw [tokens, spell, List.flatMap_singleton]
    exact Token.scan_chars (t := .number n) hj.1 fun _ _ => h
  | .array [] =>
    rw [tokens, scan_alone .openBracket rfl, scan_alone .closeBracket rfl, Option.map_map]
    rfl
  | .array (j :: js) =>
    obtain ⟨hj, hjs⟩ := hj
    rw [tokens, List.cons_append, scan_alone .openBracket rfl, spell_append, List.append_assoc,
      scan_tokens hj (stops_itemTokens js rest), scan_itemTokens hjs rest]
    simp [Option.map_map, Function.comp_def]
  | .object [] =>
    rw [tokens, scan_alone .openBrace rfl, scan_alone .closeBrace rfl, Option.map_map]
    rfl
  | .object ((k, j) :: ms) =>
    obtain ⟨hk, hj, hms⟩ := hj
    rw [tokens, List.cons_append, List.cons_append, List.cons_append, scan_alone .openBrace rfl,
      scan_alone (.string k) hk, scan_alone .colon rfl, spell_append, List.append_assoc,
      scan_tokens hj (stops_memberTokens ms rest), scan_memberTokens hms rest]
    simp [Option.map_map, Function.comp_def]

theorem scan_itemTokens {js : List Json} (hjs : AllSound js) (rest : List Char) :
    Token.scan (spell (itemTokens js) ++ rest) = (Token.scan rest).map (itemTokens js ++ ·) := by
  match js with
  | [] => exact scan_alone _ rfl [] rest
  | j :: js =>
    obtain ⟨hj, hjs⟩ := hjs
    rw [itemTokens, List.cons_append, scan_alone .comma rfl, spell_append, List.append_assoc,
      scan_tokens hj (stops_itemTokens js rest), scan_itemTokens hjs rest]
    simp [Option.map_map, Function.comp_def]

theorem scan_memberTokens {ms : List (Label × Json)} (hms : MembersSound ms) (rest : List Char) :
    Token.scan (spell (memberTokens ms) ++ rest)
      = (Token.scan rest).map (memberTokens ms ++ ·) := by
  match ms with
  | [] => exact scan_alone _ rfl [] rest
  | (k, j) :: ms =>
    obtain ⟨hk, hj, hms⟩ := hms
    rw [memberTokens, List.cons_append, List.cons_append, List.cons_append, scan_alone .comma rfl,
      scan_alone (.string k) hk, scan_alone .colon rfl, spell_append, List.append_assoc,
      scan_tokens hj (stops_memberTokens ms rest), scan_memberTokens hms rest]
    simp [Option.map_map, Function.comp_def]

end

namespace Reader

theorem run_firstItem (j : Json) (stack : List Frame) (ts : List Token) :
    run ⟨stack, .itemOrClose⟩ (j.tokens ++ ts) = run ⟨stack, .value⟩ (j.tokens ++ ts) := by
  match j with
  | .null | .bool _ | .number _ | .string _ | .array [] | .array (_ :: _) | .object []
  | .object (_ :: _) => rfl

mutual

theorem run_tokens (j : Json) (stack : List Frame) (ts : List Token) :
    run ⟨stack, .value⟩ (j.tokens ++ ts) = run (deliver stack j) ts := by
  match j with
  | .null | .bool _ | .number _ | .string _ | .array [] | .object [] => rfl
  | .array (j :: js) =>
    calc run ⟨stack, .value⟩ ((Json.array (j :: js)).tokens ++ ts)
        = run ⟨.items [] :: stack, .itemOrClose⟩ (j.tokens ++ (itemTokens js ++ ts)) := by
          rw [tokens, List.cons_append, List.cons_append, List.append_assoc]
          rfl
      _ = run ⟨.items [j] :: stack, .commaOrClose⟩ (itemTokens js ++ ts) := by
          rw [run_firstItem, run_tokens j, deliver]
      _ = run (deliver stack (.array (j :: js))) ts := run_itemTokens js [j] stack ts
  | .object ((k, j) :: ms) =>
    calc run ⟨stack, .value⟩ ((Json.object ((k, j) :: ms)).tokens ++ ts)
        = run ⟨.members [] k :: stack, .value⟩ (j.tokens ++ (memberTokens ms ++ ts)) := by
          rw [tokens]
          simp only [List.cons_append, List.append_assoc]
          rfl
      _ = run ⟨.members [(k, j)] k :: stack, .commaOrClose⟩ (memberTokens ms ++ ts) := by
          rw [run_tokens j, deliver]
      _ = run (deliver stack (.object ((k, j) :: ms))) ts :=
          run_memberTokens ms [(k, j)] k stack ts

theorem run_itemTokens (js done : List Json) (stack : List Frame) (ts : List Token) :
    run ⟨.items done :: stack, .commaOrClose⟩ (itemTokens js ++ ts)
      = run (deliver stack (.array (done.reverse ++ js))) ts := by
  match js with
  | [] =>
    rw [List.append_nil]
    rfl
  | j :: js =>
    calc run ⟨.items done :: stack, .commaOrClose⟩ (itemTokens (j :: js) ++ ts)
        = run ⟨.items done :: stack, .value⟩ (j.tokens ++ (itemTokens js ++ ts)) := by
          rw [itemTokens, List.cons_append, List.cons_append, List.append_assoc]
          rfl
      _ = run ⟨.items (j :: done) :: stack, .commaOrClose⟩ (itemTokens js ++ ts) := by
          rw [run_tokens j, deliver]
      _ = run (deliver stack (.array (done.reverse ++ j :: js))) ts := by
          rw [run_itemTokens js, List.reverse_cons, List.append_assoc, List.singleton_append]

theorem run_memberTokens (ms done : List (Label × Json)) (key : Label) (stack : List Frame)
    (ts : List Token) :
    run ⟨.members done key :: stack, .commaOrClose⟩ (memberTokens ms ++ ts)
      = run (deliver stack (.object (done.reverse ++ ms))) ts := by
  match ms with
  | [] =>
    rw [List.append_nil]
    rfl
  | (k, j) :: ms =>
    calc run ⟨.members done key :: stack, .commaOrClose⟩ (memberTokens ((k, j) :: ms) ++ ts)
        = run ⟨.members done k :: stack, .value⟩ (j.tokens ++ (memberTokens ms ++ ts)) := by
          rw [memberTokens]
          simp only [List.cons_append, List.append_assoc]
          rfl
      _ = run ⟨.members ((k, j) :: done) k :: stack, .commaOrClose⟩ (memberTokens ms ++ ts) := by
          rw [run_tokens j, deliver]
      _ = run (deliver stack (.object (done.reverse ++ (k, j) :: ms))) ts := by
          rw [run_memberTokens ms, List.reverse_cons, List.append_assoc, List.singleton_append]

end

end Reader

/-- The text of a sound tree holds that tree. -/
theorem parse?_render {j : Json} (hj : j.Sound) : parse? j.render = some j := by
  have hscan : Token.scan j.render.toList = some j.tokens := by
    have hend : Token.Stops [] := fun c hc => by cases hc
    have h := scan_tokens hj hend
    simpa [render, spell, Token.scan] using h
  have hrun := Reader.run_tokens j [] []
  rw [List.append_nil] at hrun
  simp [parse?, hscan, Reader.start, hrun, Reader.deliver, Reader.run, Reader.result?]

end Sandfall.Json
