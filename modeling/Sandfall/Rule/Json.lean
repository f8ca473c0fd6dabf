import Sandfall.Rule
import Sandfall.Json.Text
import Sandfall.Json.Decode

/-!
The JSON form of rules. Cases that carry something are objects with one member, samplers and effects
name their kind in a member, and every field is written, absent ones as null.
-/

namespace Sandfall

open Json (Decoder Source)

namespace Json

def uint8 (n : UInt8) : Json := .nat n.toNat

def list {α : Type} (f : α → Json) (as : List α) : Json := .array (as.map f)

/-- A case that carries something. -/
def case (name : String) (payload : Json) : Json := .record [(name, payload)]

end Json

/-- A number, or null for infinities and NaNs. -/
def Binary32.toJson (x : Binary32) : Json := Json.optional .number x.numeral?

def Tag.toJson (t : Tag) : Json := .text t.name

def Tag.decode : Decoder Tag := Decoder.enum Tag.names

def Property.toJson (p : Property) : Json := .text p.name

def Property.decode : Decoder Property := Decoder.enum Property.names

namespace Offset

def toJson (o : Offset) : Json := .array [.int o.1.toInt, .int o.2.toInt]

def decode : Decoder Offset := Decoder.pair Decoder.int8 Decoder.int8

end Offset

namespace Chance

def toJson : Chance → Json
  | .literal p => .case "literal" p.toJson
  | .property p => .case "property" p.toJson

def decode : Decoder Chance := fun src j =>
  match Json.case? src j with
  | some ("literal", some (inner, j)) => (Decoder.binary32 inner j).map .literal
  | some ("property", some (inner, j)) => (Property.decode inner j).map .property
  | _ => none

end Chance

namespace Sampler

def toJson : Sampler → Json
  | .own => .record [("kind", .text "self")]
  | .offsets os => .record [("kind", .text "offsets"), ("offsets", .list Offset.toJson os)]
  | .radius r b =>
    .record [("kind", .text "radius"), ("radius", .uint8 r), ("up_bias", .uint8 b)]
  | .annulus i o =>
    .record [("kind", .text "annulus"), ("inner", .uint8 i), ("outer", .uint8 o)]
  | .rect l r u d =>
    .record [("kind", .text "rect"), ("left", .uint8 l), ("right", .uint8 r), ("up", .uint8 u),
      ("down", .uint8 d)]
  | .ordered gs =>
    .record [("kind", .text "ordered"), ("groups", .list (.list Offset.toJson) gs)]

/-- The kind without fields; it has no element behind its name. -/
def ownOf : Json → Option Sampler
  | .object _ => some .own
  | .array [] => some .own
  | _ => none

def offsetsOf (j : Json) : Option Sampler := do
  let f ← Json.record? ["offsets"] .buffer j
  return .offsets (← f.required "offsets" Offset.decode.list)

def radiusOf (j : Json) : Option Sampler := do
  let f ← Json.record? ["radius", "up_bias"] .buffer j
  return .radius (← f.required "radius" Decoder.uint8) (← f.withDefault "up_bias" 0 Decoder.uint8)

def annulusOf (j : Json) : Option Sampler := do
  let f ← Json.record? ["inner", "outer"] .buffer j
  return .annulus (← f.required "inner" Decoder.uint8) (← f.required "outer" Decoder.uint8)

def rectOf (j : Json) : Option Sampler := do
  let f ← Json.record? ["left", "right", "up", "down"] .buffer j
  return .rect (← f.required "left" Decoder.uint8) (← f.required "right" Decoder.uint8)
    (← f.required "up" Decoder.uint8) (← f.required "down" Decoder.uint8)

def orderedOf (j : Json) : Option Sampler := do
  let f ← Json.record? ["groups"] .buffer j
  return .ordered (← f.required "groups" Offset.decode.list.list)

def decode : Decoder Sampler := fun src j =>
  match Json.tagged? "kind" src j with
  | some ("self", j) => ownOf j
  | some ("offsets", j) => offsetsOf j
  | some ("radius", j) => radiusOf j
  | some ("annulus", j) => annulusOf j
  | some ("rect", j) => rectOf j
  | some ("ordered", j) => orderedOf j
  | _ => none

end Sampler

namespace Comparison

def name : Comparison → String
  | .lt => "lt"
  | .le => "le"
  | .gt => "gt"
  | .ge => "ge"
  | .eq => "eq"
  | .ne => "ne"

def decode : Decoder Comparison :=
  Decoder.enum [("lt", .lt), ("le", .le), ("gt", .gt), ("ge", .ge), ("eq", .eq), ("ne", .ne)]

end Comparison

namespace Operand

def toJson : Operand → Json
  | .literal x => .case "literal" x.toJson
  | .own p => .case "own" p.toJson

def decode : Decoder Operand := fun src j =>
  match Json.case? src j with
  | some ("literal", some (inner, j)) => (Decoder.binary32 inner j).map .literal
  | some ("own", some (inner, j)) => (Property.decode inner j).map .own
  | _ => none

end Operand

namespace Predicate

mutual

def toJson : Predicate → Json
  | .always => .text "always"
  | .ids members => .case "ids" (.list .uint8 members)
  | .anyTag tags => .case "any_tag" (.list Tag.toJson tags)
  | .allTags tags => .case "all_tags" (.list Tag.toJson tags)
  | .compare p op rhs =>
    .case "compare"
      (.record [("property", p.toJson), ("op", .text op.name), ("rhs", rhs.toJson)])
  | .not p => .case "not" (toJson p)
  | .all ps => .case "all" (.array (listToJson ps))
  | .any ps => .case "any" (.array (listToJson ps))

def listToJson : List Predicate → List Json
  | [] => []
  | p :: ps => toJson p :: listToJson ps

end

def compareOf (src : Source) (j : Json) : Option Predicate := do
  let f ← Json.record? ["property", "op", "rhs"] src j
  return .compare (← f.required "property" Property.decode) (← f.required "op" Comparison.decode)
    (← f.required "rhs" Operand.decode)

/-- The cases that hold no predicate of their own. -/
def leaf (src : Source) (j : Json) : Option Predicate :=
  match Json.case? src j with
  | some ("always", payload) => if Json.carriesNothing payload then some .always else none
  | some ("ids", some (inner, j)) => (Decoder.uint8.list inner j).map .ids
  | some ("any_tag", some (inner, j)) => (Tag.decode.list inner j).map .anyTag
  | some ("all_tags", some (inner, j)) => (Tag.decode.list inner j).map .allTags
  | some ("compare", some (inner, j)) => compareOf inner j
  | _ => none

mutual

def decode (src : Source) : Json → Option Predicate
  | .object [(some "not", j)] => src.enter.bind fun inner => (decode inner j).map .not
  | .object [(some "all", .array js)] =>
    (src.enter.bind Source.enter).bind fun inner => (decodeList inner js).map .all
  | .object [(some "any", .array js)] =>
    (src.enter.bind Source.enter).bind fun inner => (decodeList inner js).map .any
  | j => leaf src j

def decodeList (src : Source) : List Json → Option (List Predicate)
  | [] => some []
  | j :: js => (decode src j).bind fun p => (decodeList src js).map (p :: ·)

end

end Predicate

namespace Matcher

def toJson (m : Matcher) : Json :=
  .record [("when", m.when.toJson), ("outcome", .nat m.outcome.toNat)]

def decode : Decoder Matcher := fun src j => do
  let f ← Json.record? ["when", "outcome"] src j
  return ⟨← f.required "when" Predicate.decode, ← f.required "outcome" Decoder.uint64⟩

end Matcher

namespace Effect

def toJson : Effect → Json
  | .transform this other p q =>
    .record [("op", .text "transform"), ("this", Json.optional .uint8 this),
      ("other", Json.optional .uint8 other), ("this_chance", p.toJson), ("other_chance", q.toJson)]
  | .swap p => .record [("op", .text "swap"), ("chance", p.toJson)]
  | .densitySwap => .record [("op", .text "density_swap")]
  | .directionSwap reach destination =>
    .record [("op", .text "direction_swap"), ("reach", .int reach.toInt),
      ("destination", Json.optional Predicate.toJson destination)]
  | .stop => .record [("op", .text "stop")]
  | .noop => .record [("op", .text "noop")]

/-- An effect without fields; it has no element behind its name. -/
def bare (e : Effect) : Json → Option Effect
  | .object _ => some e
  | .array [] => some e
  | _ => none

def transformOf (j : Json) : Option Effect := do
  let f ← Json.record? ["this", "other", "this_chance", "other_chance"] .buffer j
  return .transform (← f.optional "this" Decoder.uint8) (← f.optional "other" Decoder.uint8)
    (← f.withDefault "this_chance" .one Decoder.binary32)
    (← f.withDefault "other_chance" .one Decoder.binary32)

def swapOf (j : Json) : Option Effect := do
  let f ← Json.record? ["chance"] .buffer j
  return .swap (← f.withDefault "chance" .one Decoder.binary32)

def directionSwapOf (j : Json) : Option Effect := do
  let f ← Json.record? ["reach", "destination"] .buffer j
  return .directionSwap (← f.required "reach" Decoder.int8)
    (← f.optional "destination" Predicate.decode)

def decode : Decoder Effect := fun src j =>
  match Json.tagged? "op" src j with
  | some ("transform", j) => transformOf j
  | some ("swap", j) => swapOf j
  | some ("density_swap", j) => bare .densitySwap j
  | some ("direction_swap", j) => directionSwapOf j
  | some ("stop", j) => bare .stop j
  | some ("noop", j) => bare .noop j
  | _ => none

end Effect

namespace Commit

def name : Commit → String
  | .immediate => "immediate"
  | .endOfPass => "end_of_pass"
  | .endOfTick => "end_of_tick"

def decode : Decoder Commit :=
  Decoder.enum [("immediate", .immediate), ("end_of_pass", .endOfPass),
    ("end_of_tick", .endOfTick)]

end Commit

namespace PassRestriction

def name : PassRestriction → String
  | .rising => "rising"
  | .falling => "falling"
  | .either => "either"

def decode : Decoder PassRestriction :=
  Decoder.enum [("rising", .rising), ("falling", .falling), ("either", .either)]

end PassRestriction

namespace Rule

def fieldNames : List String :=
  ["chance", "sampler", "samples", "matchers", "outcomes", "limit", "commit", "pass", "stamp"]

def toJson (r : Rule) : Json :=
  .record [("chance", r.chance.toJson), ("sampler", r.sampler.toJson),
    ("samples", .uint8 r.samples), ("matchers", .list Matcher.toJson r.matchers),
    ("outcomes", .list Effect.toJson r.outcomes),
    ("limit", Json.optional (fun n => .nat n.toNat) r.limit),
    ("commit", .text r.commit.name), ("pass", .text r.pass.name), ("stamp", .bool r.stamp)]

def decode : Decoder Rule := fun src j => do
  let f ← Json.record? fieldNames src j
  return {
    chance := ← f.withDefault "chance" (.literal .one) Chance.decode
    sampler := ← f.required "sampler" Sampler.decode
    samples := ← f.withDefault "samples" 1 Decoder.uint8
    matchers := ← f.required "matchers" Matcher.decode.list
    outcomes := ← f.required "outcomes" Effect.decode.list
    limit := ← f.optional "limit" Decoder.uint32
    commit := ← f.withDefault "commit" .immediate Commit.decode
    pass := ← f.withDefault "pass" .either PassRestriction.decode
    stamp := ← f.withDefault "stamp" false Decoder.bool }

/-- The rule a text holds. -/
def parse? (s : String) : Option Rule := (Json.parse? s).bind (decode .document)

def render (r : Rule) : String := r.toJson.render

end Rule

end Sandfall
