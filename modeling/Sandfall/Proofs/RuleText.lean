import Sandfall.World.Config
import Sandfall.Catalog.Builtin
import Sandfall.Proofs.Decoding

/-! The text of a rule holds that rule, and the text of settings those settings. Numbers that are
not integers are the exception: a rule is read back if each of its numbers is, and if it opens no
more brackets than a document may. -/

namespace Sandfall

open Json (Decoder Source)

/-- The number is read back from its own numeral. -/
def Binary32.ReadsBack (x : Binary32) : Prop := Decoder.binary32 .document x.toJson = some x

instance (x : Binary32) : Decidable x.ReadsBack :=
  inferInstanceAs (Decidable (Decoder.binary32 .document x.toJson = some x))

theorem Binary32.reads_toJson {x : Binary32} (h : x.ReadsBack) :
    Decoder.binary32.Reads x.toJson x := by
  rw [ReadsBack, toJson] at h
  rw [toJson]
  cases hx : x.numeral? with
  | none =>
    rw [hx] at h
    cases h
  | some n =>
    rw [hx] at h
    obtain ⟨number, hnumber, -⟩ := Option.map_eq_some_iff.mp h
    exact ⟨⟨leads_numeral? hx, Option.isSome_iff_exists.mpr ⟨number, hnumber⟩⟩, fun _ _ => h⟩

theorem Tag.reads_toJson (t : Tag) : Tag.decode.Reads t.toJson t :=
  Decoder.reads_enum (by cases t <;> rfl)

theorem Property.reads_toJson (p : Property) : Property.decode.Reads p.toJson p :=
  Decoder.reads_enum (by cases p <;> rfl)

theorem Comparison.reads_name (c : Comparison) : Comparison.decode.Reads (.text c.name) c :=
  Decoder.reads_enum (by cases c <;> rfl)

theorem Commit.reads_name (c : Commit) : Commit.decode.Reads (.text c.name) c :=
  Decoder.reads_enum (by cases c <;> rfl)

theorem PassRestriction.reads_name (p : PassRestriction) :
    PassRestriction.decode.Reads (.text p.name) p :=
  Decoder.reads_enum (by cases p <;> rfl)

theorem Offset.reads_toJson (o : Offset) : Offset.decode.Reads (Offset.toJson o) o :=
  Decoder.reads_pair (Decoder.reads_int8 o.1) (Decoder.reads_int8 o.2)

/-! The numbers of a rule that are not integers. -/

def Chance.numbers : Chance → List Binary32
  | .literal p => [p]
  | .property _ => []

def Operand.numbers : Operand → List Binary32
  | .literal x => [x]
  | .own _ => []

namespace Predicate

mutual

def numbers : Predicate → List Binary32
  | .compare _ _ rhs => rhs.numbers
  | .not p => numbers p
  | .all ps => numbersOfAll ps
  | .any ps => numbersOfAll ps
  | _ => []

def numbersOfAll : List Predicate → List Binary32
  | [] => []
  | p :: ps => numbers p ++ numbersOfAll ps

end

end Predicate

def Effect.numbers : Effect → List Binary32
  | .transform _ _ p q => [p, q]
  | .swap p => [p]
  | .directionSwap _ destination => destination.toList.flatMap Predicate.numbers
  | _ => []

def Rule.numbers (r : Rule) : List Binary32 :=
  r.chance.numbers ++ r.matchers.flatMap (·.when.numbers) ++ r.outcomes.flatMap Effect.numbers

/-! Values that carry one of several things. -/

theorem Chance.reads_toJson {k : Chance} (h : ∀ x ∈ k.numbers, x.ReadsBack) :
    Chance.decode.Reads k.toJson k := by
  cases k with
  | literal p =>
    refine Decoder.reads_case (Binary32.reads_toJson (h p (List.mem_singleton_self p))) ?_
    intro src inner hcase hp
    simp [decode, hcase, hp]
  | property p =>
    refine Decoder.reads_case p.reads_toJson ?_
    intro src inner hcase hp
    simp [decode, hcase, hp]

theorem Operand.reads_toJson {o : Operand} (h : ∀ x ∈ o.numbers, x.ReadsBack) :
    Operand.decode.Reads o.toJson o := by
  cases o with
  | literal x =>
    refine Decoder.reads_case (Binary32.reads_toJson (h x (List.mem_singleton_self x))) ?_
    intro src inner hcase hx
    simp [decode, hcase, hx]
  | own p =>
    refine Decoder.reads_case p.reads_toJson ?_
    intro src inner hcase hp
    simp [decode, hcase, hp]

namespace Sampler

theorem reads_toJson (s : Sampler) : Sampler.decode.Reads s.toJson s := by
  cases s with
  | own =>
    refine Decoder.reads_tagged (by simp) (by simp) ?_
    intro src j f h _ _
    simp [decode, h, Json.record, ownOf]
  | offsets os =>
    have hos := Decoder.reads_list fun o (_ : o ∈ os) => Offset.reads_toJson o
    refine Decoder.reads_tagged (by simp) (by simpa using hos.sound) ?_
    intro src j f h hf hheld
    simp only [List.map_cons, List.map_nil] at hf
    have h1 := (hheld "offsets" _ (by simp)).required hos
    simp [decode, h, offsetsOf, hf, h1]
  | radius r b =>
    have hr := Decoder.reads_uint8 r
    have hb := Decoder.reads_uint8 b
    refine Decoder.reads_tagged (by simp) (by simpa using ⟨hr.sound, hb.sound⟩) ?_
    intro src j f h hf hheld
    simp only [List.map_cons, List.map_nil] at hf
    have h1 := (hheld "radius" _ (by simp)).required hr
    have h2 := (hheld "up_bias" _ (by simp)).withDefault hb 0
    simp [decode, h, radiusOf, hf, h1, h2]
  | annulus i o =>
    have hi := Decoder.reads_uint8 i
    have ho := Decoder.reads_uint8 o
    refine Decoder.reads_tagged (by simp) (by simpa using ⟨hi.sound, ho.sound⟩) ?_
    intro src j f h hf hheld
    simp only [List.map_cons, List.map_nil] at hf
    have h1 := (hheld "inner" _ (by simp)).required hi
    have h2 := (hheld "outer" _ (by simp)).required ho
    simp [decode, h, annulusOf, hf, h1, h2]
  | rect l r u d =>
    have hl := Decoder.reads_uint8 l
    have hr := Decoder.reads_uint8 r
    have hu := Decoder.reads_uint8 u
    have hd := Decoder.reads_uint8 d
    refine Decoder.reads_tagged (by simp)
      (by simpa using ⟨hl.sound, hr.sound, hu.sound, hd.sound⟩) ?_
    intro src j f h hf hheld
    simp only [List.map_cons, List.map_nil] at hf
    have h1 := (hheld "left" _ (by simp)).required hl
    have h2 := (hheld "right" _ (by simp)).required hr
    have h3 := (hheld "up" _ (by simp)).required hu
    have h4 := (hheld "down" _ (by simp)).required hd
    simp [decode, h, rectOf, hf, h1, h2, h3, h4]
  | ordered gs =>
    have hgs := Decoder.reads_list fun (g : List Offset) (_ : g ∈ gs) =>
      Decoder.reads_list fun o (_ : o ∈ g) => Offset.reads_toJson o
    refine Decoder.reads_tagged (by simp) (by simpa using hgs.sound) ?_
    intro src j f h hf hheld
    simp only [List.map_cons, List.map_nil] at hf
    have h1 := (hheld "groups" _ (by simp)).required hgs
    simp [decode, h, orderedOf, hf, h1]

end Sampler

namespace Predicate

theorem listToJson_eq_map (ps : List Predicate) : listToJson ps = ps.map toJson := by
  induction ps with
  | nil => rw [listToJson, List.map_nil]
  | cons p ps ih => rw [listToJson, ih, List.map_cons]

theorem decodeList_eq_mapM (src : Source) (js : List Json) :
    decodeList src js = js.mapM (decode src) := by
  induction js with
  | nil => rw [decodeList, List.mapM_nil]; rfl
  | cons j js ih => simp [decodeList, ih, Option.map_eq_bind]

theorem reads_array {ps : List Predicate} (h : ∀ p ∈ ps, Decoder.Reads decode p.toJson p) :
    (Decoder.list decode).Reads (.array (listToJson ps)) ps := by
  rw [listToJson_eq_map]
  exact Decoder.reads_list h

theorem exists_decodeList {src : Source} {js : List Json} {ps : List Predicate}
    (h : Decoder.list decode src (.array js) = some ps) :
    ∃ inner, src.enter = some inner ∧ decodeList inner js = some ps := by
  simpa only [decodeList_eq_mapM, Decoder.list, Option.bind_eq_bind, Option.bind_eq_some_iff]
    using h

/-- Only combinations hold predicates of their own. -/
theorem decode_case {name : String} (h : name ∉ ["not", "all", "any"]) (src : Source) (j : Json) :
    decode src (.case name j) = leaf src (.case name j) := by
  simp only [List.mem_cons, List.not_mem_nil, not_or, or_false] at h
  rw [decode, Json.case, Json.record] <;> simp [Json.case, Json.record, h]

theorem reads_compare {p : Property} {op : Comparison} {rhs : Operand}
    (h : ∀ x ∈ rhs.numbers, x.ReadsBack) : Decoder.Reads compareOf
      (.record [("property", p.toJson), ("op", .text op.name), ("rhs", rhs.toJson)])
      (.compare p op rhs) := by
  have hp := p.reads_toJson
  have hop := op.reads_name
  have hrhs := Operand.reads_toJson h
  refine Decoder.reads_record (by simp) (by simpa using ⟨hp.sound, hop.sound, hrhs.sound⟩) ?_
  intro src f hf hheld
  simp only [List.map_cons, List.map_nil] at hf
  have h1 := (hheld "property" _ (by simp)).required hp
  have h2 := (hheld "op" _ (by simp)).required hop
  have h3 := (hheld "rhs" _ (by simp)).required hrhs
  simp [compareOf, hf, h1, h2, h3]

mutual

/-- A combination is read if all the predicates in it are. -/
theorem reads_toJson {p : Predicate} (h : ∀ x ∈ p.numbers, x.ReadsBack) :
    Decoder.Reads decode p.toJson p := by
  match p with
  | .always => exact ⟨rfl, fun _ _ => rfl⟩
  | .ids members =>
    have hlist := Decoder.reads_list fun n (_ : n ∈ members) => Decoder.reads_uint8 n
    refine Decoder.reads_case hlist ?_
    intro src inner hcase hmembers
    rw [decode_case (by simp)]
    simp [leaf, hcase, hmembers]
  | .anyTag tags =>
    refine Decoder.reads_case (Decoder.reads_list fun t (_ : t ∈ tags) => t.reads_toJson) ?_
    intro src inner hcase htags
    rw [decode_case (by simp)]
    simp [leaf, hcase, htags]
  | .allTags tags =>
    refine Decoder.reads_case (Decoder.reads_list fun t (_ : t ∈ tags) => t.reads_toJson) ?_
    intro src inner hcase htags
    rw [decode_case (by simp)]
    simp [leaf, hcase, htags]
  | .compare p op rhs =>
    refine Decoder.reads_case (reads_compare h) ?_
    intro src inner hcase hcompare
    rw [decode_case (by simp)]
    simp [leaf, hcase, hcompare]
  | .not p =>
    refine Decoder.reads_case (reads_toJson h) ?_
    intro src inner hcase hp
    simp [decode, Json.case, Json.record, Json.enter_of_case? hcase, hp]
  | .all ps =>
    refine Decoder.reads_case (reads_array (reads_toJson_of_mem h)) ?_
    intro src inner hcase hps
    obtain ⟨innermost, henter, hps⟩ := exists_decodeList hps
    simp [decode, Json.case, Json.record, Json.enter_of_case? hcase, henter, hps]
  | .any ps =>
    refine Decoder.reads_case (reads_array (reads_toJson_of_mem h)) ?_
    intro src inner hcase hps
    obtain ⟨innermost, henter, hps⟩ := exists_decodeList hps
    simp [decode, Json.case, Json.record, Json.enter_of_case? hcase, henter, hps]

theorem reads_toJson_of_mem {ps : List Predicate} (h : ∀ x ∈ numbersOfAll ps, x.ReadsBack) :
    ∀ p ∈ ps, Decoder.Reads decode p.toJson p := by
  match ps with
  | [] => simp
  | p :: ps =>
    rw [numbersOfAll, List.forall_mem_append] at h
    exact List.forall_mem_cons.mpr ⟨reads_toJson h.1, reads_toJson_of_mem h.2⟩

end

theorem toJson_ne_null (p : Predicate) : p.toJson ≠ .null := by
  cases p <;> simp [toJson, Json.case, Json.record, Json.text]

end Predicate

namespace Matcher

theorem reads_toJson {m : Matcher} (h : ∀ x ∈ m.when.numbers, x.ReadsBack) :
    Matcher.decode.Reads m.toJson m := by
  have hwhen := Predicate.reads_toJson h
  have houtcome := Decoder.reads_uint64 m.outcome
  refine Decoder.reads_record (by simp) (by simpa using ⟨hwhen.sound, houtcome.sound⟩) ?_
  intro src f hf hheld
  simp only [List.map_cons, List.map_nil] at hf
  have h1 := (hheld "when" _ (by simp)).required hwhen
  have h2 := (hheld "outcome" _ (by simp)).required houtcome
  simp [decode, hf, h1, h2]

end Matcher

namespace Effect

/-- A material may be left out. -/
theorem reads_target (target : Option MaterialId) :
    Decoder.uint8.nullable.Reads (Json.optional .uint8 target) target :=
  Decoder.reads_optional fun n _ => ⟨Decoder.reads_uint8 n, by simp [Json.uint8, Json.nat]⟩

theorem reads_toJson {e : Effect} (h : ∀ x ∈ e.numbers, x.ReadsBack) :
    Effect.decode.Reads e.toJson e := by
  cases e with
  | transform this other p q =>
    have hthis := reads_target this
    have hother := reads_target other
    have hp := Binary32.reads_toJson (h p (by simp [numbers]))
    have hq := Binary32.reads_toJson (h q (by simp [numbers]))
    refine Decoder.reads_tagged (by simp)
      (by simpa using ⟨hthis.sound, hother.sound, hp.sound, hq.sound⟩) ?_
    intro src j f htagged hf hheld
    simp only [List.map_cons, List.map_nil] at hf
    have h1 := (hheld "this" _ (by simp)).optional hthis
    have h2 := (hheld "other" _ (by simp)).optional hother
    have h3 := (hheld "this_chance" _ (by simp)).withDefault hp .one
    have h4 := (hheld "other_chance" _ (by simp)).withDefault hq .one
    simp [decode, htagged, transformOf, hf, h1, h2, h3, h4]
  | swap p =>
    have hp := Binary32.reads_toJson (h p (List.mem_singleton_self p))
    refine Decoder.reads_tagged (by simp) (by simpa using hp.sound) ?_
    intro src j f htagged hf hheld
    simp only [List.map_cons, List.map_nil] at hf
    have h1 := (hheld "chance" _ (by simp)).withDefault hp .one
    simp [decode, htagged, swapOf, hf, h1]
  | directionSwap reach destination =>
    have hreach := Decoder.reads_int8 reach
    have hdestination : (Decoder.nullable Predicate.decode).Reads
        (Json.optional Predicate.toJson destination) destination := by
      refine Decoder.reads_optional fun d hd => ⟨Predicate.reads_toJson ?_, d.toJson_ne_null⟩
      intro x hx
      refine h x (List.mem_flatMap.mpr ⟨d, by simpa using hd, hx⟩)
    refine Decoder.reads_tagged (by simp) (by simpa using ⟨hreach.sound, hdestination.sound⟩) ?_
    intro src j f htagged hf hheld
    simp only [List.map_cons, List.map_nil] at hf
    have h1 := (hheld "reach" _ (by simp)).required hreach
    have h2 := (hheld "destination" _ (by simp)).optional hdestination
    simp [decode, htagged, directionSwapOf, hf, h1, h2]
  | densitySwap =>
    refine Decoder.reads_tagged (by simp) (by simp) ?_
    intro src j f htagged _ _
    simp [decode, htagged, Json.record, bare]
  | stop =>
    refine Decoder.reads_tagged (by simp) (by simp) ?_
    intro src j f htagged _ _
    simp [decode, htagged, Json.record, bare]
  | noop =>
    refine Decoder.reads_tagged (by simp) (by simp) ?_
    intro src j f htagged _ _
    simp [decode, htagged, Json.record, bare]

end Effect

namespace Rule

theorem reads_toJson {r : Rule} (h : ∀ x ∈ r.numbers, x.ReadsBack) : decode.Reads r.toJson r := by
  simp only [numbers, List.forall_mem_append, List.forall_mem_flatMap] at h
  obtain ⟨⟨hchances, hmatched⟩, heffects⟩ := h
  have hchance := Chance.reads_toJson hchances
  have hsampler := r.sampler.reads_toJson
  have hsamples := Decoder.reads_uint8 r.samples
  have hmatchers := Decoder.reads_list fun m hm => Matcher.reads_toJson (hmatched m hm)
  have houtcomes := Decoder.reads_list fun e he => Effect.reads_toJson (heffects e he)
  have hlimit : Decoder.uint32.nullable.Reads (Json.optional (fun n => .nat n.toNat) r.limit)
      r.limit :=
    Decoder.reads_optional fun n _ => ⟨Decoder.reads_uint32 n, by simp [Json.nat]⟩
  have hcommit := r.commit.reads_name
  have hpass := r.pass.reads_name
  have hstamp := Decoder.reads_bool r.stamp
  refine Decoder.reads_record (by simp) (by simpa using ⟨hchance.sound, hsampler.sound,
    hsamples.sound, hmatchers.sound, houtcomes.sound, hlimit.sound, hcommit.sound, hpass.sound,
    hstamp.sound⟩) ?_
  intro src f hf hheld
  simp only [List.map_cons, List.map_nil] at hf
  have h1 := (hheld "chance" _ (by simp)).withDefault hchance (.literal .one)
  have h2 := (hheld "sampler" _ (by simp)).required hsampler
  have h3 := (hheld "samples" _ (by simp)).withDefault hsamples 1
  have h4 := (hheld "matchers" _ (by simp)).required hmatchers
  have h5 := (hheld "outcomes" _ (by simp)).required houtcomes
  have h6 := (hheld "limit" _ (by simp)).optional hlimit
  have h7 := (hheld "commit" _ (by simp)).withDefault hcommit .immediate
  have h8 := (hheld "pass" _ (by simp)).withDefault hpass .either
  have h9 := (hheld "stamp" _ (by simp)).withDefault hstamp false
  simp [decode, fieldNames, hf, h1, h2, h3, h4, h5, h6, h7, h8, h9]

end Rule

theorem Config.reads_toJson (c : Config) : decode.Reads c.toJson c := by
  have hwidth := Decoder.reads_uint32 c.width
  have hheight := Decoder.reads_uint32 c.height
  have hseed := Decoder.reads_uint32 c.seed
  have hsleeping := Decoder.reads_bool c.chunkSleeping
  refine Decoder.reads_record (by simp)
    (by simpa using ⟨hwidth.sound, hheight.sound, hseed.sound, hsleeping.sound⟩) ?_
  intro src f hf hheld
  simp only [List.map_cons, List.map_nil] at hf
  have h1 := (hheld "width" _ (by simp)).withDefault hwidth 256
  have h2 := (hheld "height" _ (by simp)).withDefault hheight 256
  have h3 := (hheld "seed" _ (by simp)).withDefault hseed 12345
  have h4 := (hheld "chunkSleeping" _ (by simp)).withDefault hsleeping true
  simp [decode, hf, h1, h2, h3, h4]

theorem Config.depth_toJson (c : Config) : c.toJson.depth = 1 := rfl

theorem Json.Decoder.Reads.document {α : Type} {d : Decoder α} {j : Json} {a : α}
    (h : d.Reads j a) (hdepth : j.depth ≤ 127) :
    (Json.parse? j.render).bind (d .document) = some a := by
  rw [Json.parse?_render h.sound]
  exact h.eq_some .document hdepth

/-- The text of a rule holds that rule, and the text of settings those settings. -/
theorem Rule.text_holds_what_was_written :
    (∀ r : Rule, r.toJson.depth ≤ 127 → (∀ x ∈ r.numbers, x.ReadsBack) →
      Rule.parse? r.render = some r) ∧
    ∀ c : Config, Config.parse? c.render = some c := by
  refine ⟨fun r hdepth hnumbers => (reads_toJson hnumbers).document hdepth, fun c => ?_⟩
  exact c.reads_toJson.document (by rw [c.depth_toJson]; decide)

/-- Burns flammable neighbours, throws what is light up to three cells back, and rests. -/
def Rule.ember : Rule where
  chance := .literal (.nearest false 3 10)
  sampler := .ordered [[(0, -1), (1, -1)], [(-1, 0)]]
  matchers := [
    ⟨.all [.anyTag [.flammable], .not (.any [.ids [0, 7], .allTags [.solid, .organic]])], 0⟩,
    ⟨.compare .density .lt (.literal (.nearest false 5 4)), 1⟩, ⟨.always, 2⟩]
  outcomes := [
    .transform none (some 5) .one (.nearest false 1 4),
    .directionSwap (-3) (some (.compare .density .le (.own .density))), .stop]
  limit := some 2
  commit := .endOfPass
  pass := .rising

/-- An ember is read back from its text, and so are all rules of the built-in materials. -/
theorem Rule.text_holds_what_was_written_ember :
    Rule.parse? Rule.ember.render = some Rule.ember ∧
    (∀ m ∈ Catalog.Builtin.materials, ∀ r ∈ m.2.rules, Rule.parse? r.render = some r) ∧
    Config.parse? (Config.render {}) = some {} := by
  have hember : Rule.ember.toJson.depth ≤ 127 ∧ ∀ x ∈ Rule.ember.numbers, x.ReadsBack := by
    decide +kernel
  have hbuiltin : ∀ m ∈ Catalog.Builtin.materials, ∀ r ∈ m.2.rules,
      r.toJson.depth ≤ 127 ∧ ∀ x ∈ r.numbers, x.ReadsBack := by
    decide +kernel
  obtain ⟨hrules, hsettings⟩ := Rule.text_holds_what_was_written
  refine ⟨hrules _ hember.1 hember.2, ?_, hsettings {}⟩
  intro m hm r hr
  obtain ⟨hdepth, hnumbers⟩ := hbuiltin m hm r hr
  exact hrules r hdepth hnumbers

end Sandfall
