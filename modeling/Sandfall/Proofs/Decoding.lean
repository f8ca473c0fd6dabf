import Sandfall.Rule.Json
import Sandfall.Proofs.Documents

/-! What is written of a value is read back as that value. `Decoder.Reads d j a` says so of one
value and its tree, wherever enough brackets are left to open; it goes through lists, pairs, absent
values, cases, records and tagged values, and so needs to be shown of each type only where that
type is written. -/

namespace Sandfall.Json

namespace Source

/-- So many more brackets may be opened. -/
def Allows (src : Source) (n : Nat) : Prop :=
  match src with
  | .text room => n ≤ room
  | .buffer => True

theorem Allows.mono {src : Source} {m n : Nat} (h : src.Allows n) (hmn : m ≤ n) :
    src.Allows m := by
  cases src with
  | text room => exact hmn.trans h
  | buffer => trivial

theorem Allows.exists_enter {src : Source} {n : Nat} (h : src.Allows (n + 1)) :
    ∃ inner, src.enter = some inner ∧ inner.Allows n := by
  match src with
  | .text 0 => exact absurd h (Nat.not_succ_le_zero n)
  | .text (room + 1) => exact ⟨.text room, rfl, Nat.le_of_succ_le_succ h⟩
  | .buffer => exact ⟨.buffer, rfl, trivial⟩

theorem Allows.holds {src : Source} {j : Json} (h : src.Allows j.depth) (hj : j.Sound) :
    src.holds j = true := by
  cases src with
  | text room => exact fits_of_sound hj h
  | buffer => rfl

end Source

namespace Decoder

/-- The decoder reads the tree as this value. -/
structure Reads {α : Type} (d : Decoder α) (j : Json) (a : α) : Prop where
  sound : j.Sound
  eq_some : ∀ src : Source, src.Allows j.depth → d src j = some a

theorem reads_bool (b : Bool) : bool.Reads (.bool b) b := ⟨trivial, fun _ _ => rfl⟩

theorem reads_integer {α : Type} {low high n : Int} {m : Numeral} (f : Int → α)
    (hm : Digit.Leads m.whole) (hread : m.read = some (.integer n)) (hn : low ≤ n ∧ n ≤ high) :
    Reads (fun src j => (integer low high src j).map f) (.number m) (f n) := by
  refine ⟨⟨hm, by rw [hread]; rfl⟩, fun src _ => ?_⟩
  simp [integer, hread, hn]

theorem reads_uint8 (n : UInt8) : uint8.Reads (.uint8 n) n := by
  have hn := n.toNat_lt
  have h : uint8.Reads (.nat n.toNat) (UInt8.ofNat (Int.toNat n.toNat)) :=
    reads_integer (fun i => UInt8.ofNat i.toNat) (Digit.leads_ofNat _)
      (Numeral.read_ofNat (by unfold UInt64.size; omega)) (by omega)
  rwa [Int.toNat_natCast, UInt8.ofNat_toNat] at h

theorem reads_uint32 (n : UInt32) : uint32.Reads (.nat n.toNat) n := by
  have hn := n.toNat_lt
  have h : uint32.Reads (.nat n.toNat) (UInt32.ofNat (Int.toNat n.toNat)) :=
    reads_integer (fun i => UInt32.ofNat i.toNat) (Digit.leads_ofNat _)
      (Numeral.read_ofNat (by unfold UInt64.size; omega)) (by omega)
  rwa [Int.toNat_natCast, UInt32.ofNat_toNat] at h

theorem reads_uint64 (n : UInt64) : uint64.Reads (.nat n.toNat) n := by
  have hn := n.toNat_lt
  have h : uint64.Reads (.nat n.toNat) (UInt64.ofNat (Int.toNat n.toNat)) :=
    reads_integer (fun i => UInt64.ofNat i.toNat) (Digit.leads_ofNat _)
      (Numeral.read_ofNat (by unfold UInt64.size; omega)) (by omega)
  rwa [Int.toNat_natCast, UInt64.ofNat_toNat] at h

theorem reads_int8 (n : Int8) : int8.Reads (.int n.toInt) n := by
  have hlow := n.le_toInt
  have hhigh := n.toInt_lt
  have hread : (Numeral.ofInt n.toInt).read = some (.integer n.toInt) :=
    Numeral.read_ofInt (by unfold UInt64.size; omega) (by unfold UInt64.size; omega)
  have h : int8.Reads (.int n.toInt) (Int8.ofInt n.toInt) :=
    reads_integer Int8.ofInt (Digit.leads_ofNat _) hread (by omega)
  rwa [Int8.ofInt_toInt] at h

/-- An absent value is written as null, and nothing else is. -/
theorem reads_optional {α : Type} {d : Decoder α} {f : α → Json} {o : Option α}
    (h : ∀ a ∈ o, d.Reads (f a) a ∧ f a ≠ .null) : d.nullable.Reads (Json.optional f o) o := by
  cases o with
  | none => exact ⟨trivial, fun _ _ => rfl⟩
  | some a =>
    obtain ⟨ha, hnull⟩ := h a rfl
    refine ⟨ha.sound, fun src hsrc => ?_⟩
    rw [Json.optional, nullable, ha.eq_some src hsrc]
    · rfl
    · exact hnull

theorem reads_list {α : Type} {d : Decoder α} {f : α → Json} {as : List α}
    (h : ∀ a ∈ as, d.Reads (f a) a) : d.list.Reads (Json.list f as) as := by
  refine ⟨allSound_iff.mpr ?_, fun src hsrc => ?_⟩
  · intro j hj
    obtain ⟨a, ha, rfl⟩ := List.mem_map.mp hj
    exact (h a ha).sound
  · obtain ⟨inner, henter, hinner⟩ := Source.Allows.exists_enter hsrc
    have hitem : ∀ a ∈ as, d inner (f a) = some a := by
      intro a ha
      refine (h a ha).eq_some inner (hinner.mono ?_)
      exact depthOfAll_le_iff.mp (Nat.le_refl _) _ (List.mem_map_of_mem ha)
    have hmap : (as.map f).mapM (d inner) = some as := by
      clear h hsrc hinner
      induction as with
      | nil => rfl
      | cons a as ih =>
        obtain ⟨ha, has⟩ := List.forall_mem_cons.mp hitem
        simp [ha, ih has]
    rw [Json.list, list, henter]
    exact hmap

theorem reads_pair {α β : Type} {d : Decoder α} {e : Decoder β} {i j : Json} {a : α} {b : β}
    (ha : d.Reads i a) (hb : e.Reads j b) : (d.pair e).Reads (.array [i, j]) (a, b) := by
  refine ⟨⟨ha.sound, hb.sound, trivial⟩, fun src hsrc => ?_⟩
  obtain ⟨inner, henter, hinner⟩ := Source.Allows.exists_enter hsrc
  have hi := ha.eq_some inner (hinner.mono (by simp [depthOfAll]))
  have hj := hb.eq_some inner (hinner.mono (by simp [depthOfAll]))
  simp [pair, henter, hi, hj]

theorem reads_enum {α : Type} {cases : List (String × α)} {name : String} {a : α}
    (h : cases.lookup name = some a) : (enum cases).Reads (.text name) a :=
  ⟨rfl, fun _ _ => by simp [enum, case?, Json.text, carriesNothing, h]⟩

end Decoder

/-! Cases, records and tagged values. -/

def labelled (members : List (String × Json)) : List (Label × Json) :=
  members.map fun m => (some m.1, m.2)

theorem record_eq (members : List (String × Json)) : record members = .object (labelled members) :=
  rfl

theorem mem_labelled {members : List (String × Json)} {m : Label × Json}
    (h : m ∈ labelled members) : ∃ x ∈ members, m.1 = some x.1 ∧ m.2 = x.2 := by
  obtain ⟨x, hx, rfl⟩ := List.mem_map.mp h
  exact ⟨x, hx, rfl, rfl⟩

theorem sound_case {name : String} {j : Json} (h : j.Sound) : (Json.case name j).Sound :=
  ⟨rfl, h, trivial⟩

theorem sound_record {members : List (String × Json)} (h : ∀ m ∈ members, m.2.Sound) :
    (record members).Sound := by
  refine membersSound_iff.mpr ?_
  intro m hm
  obtain ⟨x, hx, hlabel, hvalue⟩ := mem_labelled hm
  exact ⟨by rw [hlabel]; rfl, hvalue ▸ h x hx⟩

/-- Where a record may be, its members may be one bracket further in. -/
theorem allows_member {src : Source} {members : List (String × Json)}
    (h : src.Allows (depthOfMembers (labelled members))) {m : String × Json} (hm : m ∈ members) :
    src.Allows m.2.depth :=
  h.mono (depthOfMembers_le_iff.mp (Nat.le_refl _) (some m.1, m.2) (List.mem_map_of_mem hm))

/-- What a case carries is read one bracket further in. -/
theorem case?_case {src : Source} {name : String} {j : Json}
    (h : src.Allows (Json.case name j).depth) :
    ∃ inner, inner.Allows j.depth ∧
      case? src (.case name j) = some (name, some (inner, j)) := by
  obtain ⟨inner, henter, hinner⟩ := Source.Allows.exists_enter h
  refine ⟨inner, hinner.mono (by simp [depthOfMembers]), ?_⟩
  simp [Json.case, record, case?, henter]

theorem enter_of_case? {src inner : Source} {name : String} {j : Json}
    (h : case? src (.case name j) = some (name, some (inner, j))) : src.enter = some inner := by
  simpa [case, record, case?] using h

theorem Decoder.reads_case {α β : Type} {d : Decoder α} {e : Decoder β} {name : String} {j : Json}
    {a : α} {b : β} (hb : e.Reads j b)
    (hd : ∀ src inner, case? src (.case name j) = some (name, some (inner, j)) →
      e inner j = some b → d src (.case name j) = some a) : d.Reads (.case name j) a := by
  refine ⟨sound_case hb.sound, fun src hsrc => ?_⟩
  obtain ⟨inner, hinner, hcase⟩ := case?_case hsrc
  exact hd src inner hcase (hb.eq_some inner hinner)

/-- The field has this value, which may nest as deep as it does. -/
structure Fields.Holds (f : Fields) (name : String) (j : Json) : Prop where
  lookup : f.values.lookup name = some j
  allows : f.source.Allows j.depth

namespace Fields.Holds

variable {α : Type} {f : Fields} {name : String} {j : Json}

theorem required (h : f.Holds name j) {d : Decoder α} {a : α} (ha : d.Reads j a) :
    f.required name d = some a := by
  rw [Fields.required, h.lookup]
  exact ha.eq_some _ h.allows

theorem withDefault (h : f.Holds name j) {d : Decoder α} {a : α} (ha : d.Reads j a) (default : α) :
    f.withDefault name default d = some a := by
  rw [Fields.withDefault, h.lookup]
  exact ha.eq_some _ h.allows

theorem optional (h : f.Holds name j) {d : Decoder α} {o : Option α} (ho : d.nullable.Reads j o) :
    f.optional name d = some o :=
  h.withDefault ho none

end Fields.Holds

theorem lookup_of_mem {α : Type} {members : List (String × α)} (h : (members.map Prod.fst).Nodup)
    {name : String} {a : α} (hm : (name, a) ∈ members) : members.lookup name = some a := by
  induction members with
  | nil => cases hm
  | cons x members ih =>
    obtain ⟨key, b⟩ := x
    obtain ⟨hkey, hmembers⟩ := List.nodup_cons.mp h
    rcases List.mem_cons.mp hm with heq | htail
    · cases heq
      exact List.lookup_cons_self
    · have hne : name ≠ key := by
        rintro rfl
        exact hkey (List.mem_map.mpr ⟨(name, a), htail, rfl⟩)
      rw [List.lookup_cons, beq_false_of_ne hne]
      exact ih hmembers htail

theorem pick_labelled {names : List String} {members : List (String × Json)}
    (h : members.map Prod.fst ⊆ names) : pick names (labelled members) = members := by
  induction members with
  | nil => rfl
  | cons m members ih =>
    obtain ⟨hm, hmembers⟩ := List.cons_subset.mp h
    have hpick : pick names (labelled (m :: members)) = m :: pick names (labelled members) := by
      simp [pick, labelled, hm]
    rw [hpick, ih hmembers]

theorem all_labels_isSome (members : List (String × Json)) :
    (labelled members).all (fun m => m.1.isSome) = true := by
  simp [labelled]

/-- A record written with all its fields is read as these fields. -/
theorem record?_record {names : List String} {src : Source} {members : List (String × Json)}
    (hnames : members.map Prod.fst = names) (hnodup : names.Nodup)
    (h : src.Allows (record members).depth) :
    ∃ f, record? names src (.record members) = some f ∧
      ∀ name j, (name, j) ∈ members → f.Holds name j := by
  subst hnames
  obtain ⟨inner, henter, hinner⟩ := Source.Allows.exists_enter h
  refine ⟨⟨inner, members⟩, ?_, ?_⟩
  · have hpick := pick_labelled (List.Subset.refl (members.map Prod.fst))
    simp [record_eq, record?, hpick, all_labels_isSome, keysDiffer, hnodup, henter]
  · intro name j hm
    exact ⟨lookup_of_mem hnodup hm, allows_member hinner hm⟩

theorem Decoder.reads_record {α : Type} {d : Decoder α} {members : List (String × Json)} {a : α}
    (hnodup : (members.map Prod.fst).Nodup) (hsound : ∀ m ∈ members, m.2.Sound)
    (hd : ∀ src f, record? (members.map Prod.fst) src (.record members) = some f →
      (∀ name j, (name, j) ∈ members → f.Holds name j) → d src (.record members) = some a) :
    d.Reads (.record members) a := by
  refine ⟨sound_record hsound, fun src hsrc => ?_⟩
  obtain ⟨f, hf, hheld⟩ := record?_record rfl hnodup hsrc
  exact hd src f hf hheld

/-- A tagged value is read as its kind and the record of its other members. -/
theorem tagged?_record {tag kind : String} {src : Source} {members : List (String × Json)}
    (htag : tag ∉ members.map Prod.fst) (hsound : ∀ m ∈ members, m.2.Sound)
    (h : src.Allows (record ((tag, .text kind) :: members)).depth) :
    tagged? tag src (.record ((tag, .text kind) :: members)) = some (kind, .record members) := by
  obtain ⟨inner, henter, hinner⟩ := Source.Allows.exists_enter h
  have hother : ∀ m ∈ labelled members, m.1 ≠ some tag := by
    intro m hm heq
    obtain ⟨x, hx, hlabel, -⟩ := mem_labelled hm
    obtain rfl : x.1 = tag := Option.some.inj (hlabel.symm.trans heq)
    exact htag (List.mem_map_of_mem hx)
  have hrest : ((some tag, Json.string (some kind)) :: labelled members).filter
      (fun m => m.1 ≠ some tag) = labelled members := by
    rw [List.filter_cons_of_neg (by simp)]
    exact List.filter_eq_self.mpr fun m hm => decide_eq_true (hother m hm)
  have hkind : ((some tag, Json.string (some kind)) :: labelled members).filter
      (fun m => m.1 = some tag) = [(some tag, .string (some kind))] := by
    rw [List.filter_cons_of_pos (by simp)]
    exact congrArg _ (List.filter_eq_nil_iff.mpr fun m hm => by simp [hother m hm])
  have hbuffered : (labelled members).all (fun m => m.1.isSome && inner.holds m.2) = true := by
    refine List.all_eq_true.mpr fun m hm => ?_
    obtain ⟨x, hx, hlabel, hvalue⟩ := mem_labelled hm
    have hallows := allows_member hinner (List.mem_cons_of_mem _ hx)
    rw [hlabel, hvalue, hallows.holds (hsound x hx)]
    rfl
  have hcons : record ((tag, .text kind) :: members)
      = .object ((some tag, .string (some kind)) :: labelled members) := rfl
  simp only [hcons, tagged?, henter, hrest, hkind, hbuffered, Option.bind_eq_bind, Option.bind_some,
    if_true, record_eq]

/-- A tagged value is read by what reads its kind's fields, from a buffer and so however deep they
nest. -/
theorem Decoder.reads_tagged {α : Type} {d : Decoder α} {tag kind : String}
    {members : List (String × Json)} {a : α} (hnodup : (tag :: members.map Prod.fst).Nodup)
    (hsound : ∀ m ∈ members, m.2.Sound)
    (hd : ∀ src j f, tagged? tag src j = some (kind, .record members) →
      record? (members.map Prod.fst) .buffer (.record members) = some f →
      (∀ name j, (name, j) ∈ members → f.Holds name j) → d src j = some a) :
    d.Reads (.record ((tag, .text kind) :: members)) a := by
  obtain ⟨htag, hmembers⟩ := List.nodup_cons.mp hnodup
  refine ⟨sound_record (List.forall_mem_cons.mpr ⟨rfl, hsound⟩), fun src hsrc => ?_⟩
  obtain ⟨f, hf, hheld⟩ := record?_record rfl hmembers (show Source.buffer.Allows _ from trivial)
  exact hd src _ f (tagged?_record htag hsound hsrc) hf hheld

end Sandfall.Json
