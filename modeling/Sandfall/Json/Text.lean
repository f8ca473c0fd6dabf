import Sandfall.Json.Token

/-!
JSON text. A tree is written as its tokens without blanks; a text is read by feeding its tokens to a
machine that keeps the open brackets on a stack, so any depth of nesting is read.
-/

namespace Sandfall.Json

mutual

def tokens : Json → List Token
  | .null => [.null]
  | .bool b => [.bool b]
  | .number n => [.number n]
  | .string s => [.string s]
  | .array [] => [.openBracket, .closeBracket]
  | .array (j :: js) => .openBracket :: tokens j ++ itemTokens js
  | .object [] => [.openBrace, .closeBrace]
  | .object ((k, j) :: ms) => .openBrace :: .string k :: .colon :: tokens j ++ memberTokens ms

/-- The items after the first, and the closing bracket. -/
def itemTokens : List Json → List Token
  | [] => [.closeBracket]
  | j :: js => .comma :: tokens j ++ itemTokens js

def memberTokens : List (Label × Json) → List Token
  | [] => [.closeBrace]
  | (k, j) :: ms => .comma :: .string k :: .colon :: tokens j ++ memberTokens ms

end

def render (j : Json) : String := String.ofList (j.tokens.flatMap Token.chars)

/-- An open bracket with what has been read since, last first. -/
inductive Frame where
  | items (done : List Json)
  | members (done : List (Label × Json)) (key : Label)

/-- What the next token must be. -/
inductive Want where
  | value
  | itemOrClose
  | keyOrClose (done : List (Label × Json))
  | key (done : List (Label × Json))
  | colon (done : List (Label × Json)) (key : Label)
  | commaOrClose
  | nothing (result : Json)

structure Reader where
  stack : List Frame
  want : Want

namespace Reader

def start : Reader := ⟨[], .value⟩

/-- A value has been read: it goes into the innermost open bracket. -/
def deliver (stack : List Frame) (j : Json) : Reader :=
  match stack with
  | [] => ⟨[], .nothing j⟩
  | .items done :: rest => ⟨.items (j :: done) :: rest, .commaOrClose⟩
  | .members done key :: rest => ⟨.members ((key, j) :: done) key :: rest, .commaOrClose⟩

/-- The first token of a value. -/
def beginValue (stack : List Frame) : Token → Option Reader
  | .null => some (deliver stack .null)
  | .bool b => some (deliver stack (.bool b))
  | .number n => some (deliver stack (.number n))
  | .string s => some (deliver stack (.string s))
  | .openBracket => some ⟨.items [] :: stack, .itemOrClose⟩
  | .openBrace => some ⟨stack, .keyOrClose []⟩
  | _ => none

def feed (r : Reader) (t : Token) : Option Reader :=
  match r.want, t, r.stack with
  | .value, t, stack => beginValue stack t
  | .itemOrClose, .closeBracket, .items _ :: stack => some (deliver stack (.array []))
  | .itemOrClose, t, stack => beginValue stack t
  | .keyOrClose _, .closeBrace, stack => some (deliver stack (.object []))
  | .keyOrClose done, .string k, stack => some ⟨stack, .colon done k⟩
  | .key done, .string k, stack => some ⟨stack, .colon done k⟩
  | .colon done k, .colon, stack => some ⟨.members done k :: stack, .value⟩
  | .commaOrClose, .comma, .items done :: stack => some ⟨.items done :: stack, .value⟩
  | .commaOrClose, .closeBracket, .items done :: stack =>
    some (deliver stack (.array done.reverse))
  | .commaOrClose, .comma, .members done _ :: stack => some ⟨stack, .key done⟩
  | .commaOrClose, .closeBrace, .members done _ :: stack =>
    some (deliver stack (.object done.reverse))
  | _, _, _ => none

def run (r : Reader) : List Token → Option Reader
  | [] => some r
  | t :: ts => (r.feed t).bind (run · ts)

def result? (r : Reader) : Option Json :=
  match r.want with
  | .nothing j => some j
  | _ => none

end Reader

def parse? (s : String) : Option Json := do
  let ts ← Token.scan s.toList
  let r ← Reader.start.run ts
  r.result?

end Sandfall.Json
