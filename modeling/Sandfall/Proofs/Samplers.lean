import Sandfall.Proofs.Faithful

/-! What the offsets of a compiled rule are. Every offset stands in the list as often as its sampler
asks for and no other offset does, listed offsets and groups keep their order, and narrowing to
bytes and 16-bit words alters none. A sampler's list is a list without repetitions, each offset
copied, so all samplers are counted by `count_copies`. -/

namespace Sandfall

theorem mem_intervalList {low high z : Int} :
    z ∈ intervalList low high ↔ low ≤ z ∧ z ≤ high := by
  simp only [intervalList, List.mem_map, List.mem_range]
  constructor
  · rintro ⟨i, hi, rfl⟩
    omega
  · intro h
    exact ⟨(z - low).toNat, by omega, by omega⟩

theorem nodup_intervalList (low high : Int) : (intervalList low high).Nodup :=
  List.nodup_range.map fun i j h => by simpa using h

namespace Sampler

theorem mem_box {left right up down : Int} {o : Int × Int} :
    o ∈ box left right up down ↔ (-left ≤ o.1 ∧ o.1 ≤ right) ∧ -up ≤ o.2 ∧ o.2 ≤ down := by
  obtain ⟨dx, dy⟩ := o
  simp only [box, List.mem_flatMap, List.mem_map, mem_intervalList, Prod.mk.injEq]
  constructor
  · rintro ⟨y, hy, x, hx, rfl, rfl⟩
    exact ⟨hx, hy⟩
  · rintro ⟨hx, hy⟩
    exact ⟨dy, hy, dx, hx, rfl, rfl⟩

/-- The rows of a box differ in their height, and no row repeats a place. -/
theorem nodup_box (left right up down : Int) : (box left right up down).Nodup := by
  refine List.nodup_flatMap.mpr ⟨?_, ?_⟩
  · intro dy _
    exact (nodup_intervalList _ _).map fun x y h => (Prod.mk.inj h).1
  · refine (nodup_intervalList (-up) down).imp ?_
    intro y y' hne o ho ho'
    obtain ⟨x, -, rfl⟩ := List.mem_map.mp ho
    obtain ⟨x', -, h⟩ := List.mem_map.mp ho'
    exact hne (Prod.mk.inj h).2.symm

/-- Copies of different offsets are counted one offset at a time. -/
theorem count_copies {os : List (Int × Int)} (hos : os.Nodup) (copies : Int × Int → Nat)
    (starts : Option (List Nat)) (o : Int × Int) :
    (Expansion.mk (os.map fun o => (o, copies o)) starts).offsets.count o
      = if o ∈ os then copies o else 0 := by
  simp only [Expansion.offsets, List.flatMap_map]
  induction os with
  | nil => rfl
  | cons p os ih =>
    obtain ⟨hp, hos⟩ := List.nodup_cons.mp hos
    rw [List.flatMap_cons, List.count_append, ih hos, List.count_replicate]
    by_cases h : p = o
    · subst h
      simp [hp]
    · simp [h, Ne.symm h]

/-- How often an offset belongs in the list of a sampler. -/
def multiplicity (s : Sampler) (o : Int × Int) : Nat :=
  match s with
  | .own => if o = (0, 0) then 1 else 0
  | .offsets os => (os.map widen).count o
  | .radius r bias =>
    if o ≠ (0, 0) ∧ o.1.natAbs ≤ r.toNat ∧ o.2.natAbs ≤ r.toNat then
      if o.2 < 0 then 1 + bias.toNat else 1
    else 0
  | .annulus inner outer =>
    let distance := o.1.natAbs * o.1.natAbs + o.2.natAbs * o.2.natAbs
    if inner.toNat * inner.toNat < distance ∧ distance ≤ outer.toNat * outer.toNat then 1 else 0
  | .rect left right up down =>
    if o ≠ (0, 0) ∧ (-(left.toNat : Int) ≤ o.1 ∧ o.1 ≤ right.toNat)
        ∧ -(up.toNat : Int) ≤ o.2 ∧ o.2 ≤ down.toNat then 1
    else 0
  | .ordered groups => (groups.flatten.map widen).count o

theorem count_once {os : List (Int × Int)} (hos : os.Nodup) (starts : Option (List Nat))
    (o : Int × Int) :
    (Expansion.mk (once os) starts).offsets.count o = if o ∈ os then 1 else 0 :=
  count_copies hos (fun _ => 1) starts o

/-- A ring lies in the box around its outer circle. -/
theorem within_of_square_le {r : Nat} {dx dy : Int}
    (h : dx * dx + dy * dy ≤ (r : Int) * r) :
    (-(r : Int) ≤ dx ∧ dx ≤ r) ∧ -(r : Int) ≤ dy ∧ dy ≤ r := by
  refine ⟨⟨?_, ?_⟩, ?_, ?_⟩ <;> nlinarith

/-- The expansion of a sampler lists every offset as often as the sampler asks for it. -/
theorem count_expand (s : Sampler) (o : Int × Int) :
    s.expand.offsets.count o = s.multiplicity o := by
  cases s with
  | own =>
    rw [expand, count_once (List.nodup_singleton _)]
    simp [multiplicity]
  | offsets os => rw [expand, offsets_once, multiplicity]
  | radius r bias =>
    have hnodup := (nodup_box r.toNat r.toNat r.toNat r.toNat).filter fun o => o ≠ (0, 0)
    simp only [expand, multiplicity,
      count_copies hnodup (fun o => if o.2 < 0 then 1 + bias.toNat else 1), List.mem_filter,
      mem_box, decide_eq_true_eq]
    refine if_congr (and_comm.trans (and_congr_right fun _ => ?_)) rfl rfl
    omega
  | annulus inner outer =>
    have hnodup := (nodup_box outer.toNat outer.toNat outer.toNat outer.toNat).filter
      fun o => ((inner.toNat : Int) * inner.toNat < o.1 * o.1 + o.2 * o.2 ∧
        o.1 * o.1 + o.2 * o.2 ≤ (outer.toNat : Int) * outer.toNat)
    have hsquare : ((o.1.natAbs * o.1.natAbs + o.2.natAbs * o.2.natAbs : Nat) : Int)
        = o.1 * o.1 + o.2 * o.2 := by
      simp
    simp only [expand, multiplicity, count_once hnodup, List.mem_filter, mem_box,
      decide_eq_true_eq]
    refine if_congr ?_ rfl rfl
    constructor
    · intro h
      omega
    · intro h
      have hle : o.1 * o.1 + o.2 * o.2 ≤ (outer.toNat : Int) * outer.toNat := by omega
      exact ⟨within_of_square_le hle, by omega, hle⟩
  | rect left right up down =>
    have hnodup := (nodup_box left.toNat right.toNat up.toNat down.toNat).filter
      fun o => o ≠ (0, 0)
    simp only [expand, multiplicity, count_once hnodup, List.mem_filter, mem_box,
      decide_eq_true_eq]
    exact if_congr and_comm rfl rfl
  | ordered groups => rw [offsets_ordered, multiplicity]

end Sampler

namespace CompiledRule

def listed (r : CompiledRule) : List (Int × Int) := r.offsets.toList.map Sampler.widen

/-- The offsets of the `g`-th group in the order they are walked. -/
def groupOffsets (r : CompiledRule) (starts : Array UInt16) (g : Nat) : List (Int × Int) :=
  (List.range' (group starts g).1 ((group starts g).2 - (group starts g).1)).map r.offset

end CompiledRule

namespace Rule

variable {c : Catalog} {actor : Archetype} {r : Rule} {t : CompiledRule}

theorem narrow_widen (o : Offset) :
    (Int8.ofInt (Sampler.widen o).1, Int8.ofInt (Sampler.widen o).2) = o := by
  simp [Sampler.widen]

theorem tables_offsets_of_widened {os : List Offset}
    (h : r.sampler.expand.offsets = os.map Sampler.widen) :
    (r.tables c actor).offsets.toList = os := by
  simp [tables, h, Function.comp_def, narrow_widen]

theorem widen_narrow {o : Int × Int} (h : Fault.fitsByte o) :
    Sampler.widen (Int8.ofInt o.1, Int8.ofInt o.2) = o := by
  simp only [Fault.fitsByte, Bool.and_eq_true, decide_eq_true_eq] at h
  obtain ⟨⟨⟨h1, h2⟩, h3⟩, h4⟩ := h
  simp only [Sampler.widen, Int8.toInt_ofInt_of_le h1 (by omega),
    Int8.toInt_ofInt_of_le h3 (by omega)]

/-- Narrowing to bytes keeps every offset of a rule without a fault. -/
theorem Valid.listed_tables (hv : r.Valid c actor) :
    (r.tables c actor).listed = r.sampler.expand.offsets := by
  simp only [CompiledRule.listed, tables, List.map_map]
  calc r.sampler.expand.offsets.map (Sampler.widen ∘ fun o => (Int8.ofInt o.1, Int8.ofInt o.2))
      = r.sampler.expand.offsets.map id :=
        List.map_congr_left fun o ho =>
          widen_narrow (hv.bytes o (Expansion.mem_cells_of_mem_offsets ho))
    _ = r.sampler.expand.offsets := List.map_id _

theorem Valid.tables_starts_eq (hv : r.Valid c actor) :
    (r.tables c actor).starts.map (fun starts => starts.toList.map UInt16.toNat)
      = r.sampler.expand.starts := by
  cases hs : r.sampler.expand.starts with
  | none => simp [tables, hs]
  | some starts =>
    obtain ⟨groups, hgroups, rfl⟩ := Sampler.starts_eq_some hs
    have hlen := hv.offsets_length_le
    rw [hgroups, Sampler.offsets_ordered, List.length_map] at hlen
    have hle : ∀ n ∈ Sampler.runningStarts 0 groups, n ≤ 65535 := by
      intro n hn
      obtain ⟨k, hk, rfl⟩ := List.getElem_of_mem hn
      have hget := Sampler.runningStarts_getElem? 0 groups k
        (by rw [Sampler.runningStarts_length] at hk; omega)
      rw [List.getElem?_eq_getElem hk, Option.some.injEq, Nat.zero_add] at hget
      rw [hget]
      exact ((groups.take_prefix k).flatten.length_le).trans hlen
    simp only [tables, hs, Option.map_some, List.map_map, Option.some.injEq]
    calc (Sampler.runningStarts 0 groups).map (UInt16.toNat ∘ UInt16.ofNat)
        = (Sampler.runningStarts 0 groups).map id :=
          List.map_congr_left fun n hn =>
            UInt16.toNat_ofNat_of_lt' (Nat.lt_of_le_of_lt (hle n hn) (by decide))
      _ = Sampler.runningStarts 0 groups := List.map_id _

theorem Valid.exists_groups (hv : r.Valid c actor) {groups : List (List Offset)}
    (hs : r.sampler = .ordered groups) :
    ∃ starts, (r.tables c actor).starts = some starts ∧
      CompiledRule.groupCount starts = groups.length ∧
      ∀ g (hg : g < groups.length),
        (r.tables c actor).groupOffsets starts g = groups[g].map Sampler.widen := by
  obtain ⟨starts, hstarts, hsize, hget⟩ := hv.tables_starts hs
  refine ⟨starts, hstarts, by rw [CompiledRule.groupCount, hsize, Nat.add_sub_cancel], ?_⟩
  intro g hg
  have hoffset : (r.tables c actor).offset
      = fun k => (groups.flatten.map Sampler.widen).getD k (0, 0) := by
    funext k
    rw [hv.tables_offset, hs, Sampler.offsets_ordered]
  simp only [CompiledRule.groupOffsets, CompiledRule.group, hget g (Nat.le_of_lt hg),
    hget (g + 1) hg, hoffset]
  exact Authored.map_getD_group groups hg (0, 0)

end Rule

/-- A compiled rule looks where its sampler says: each offset is listed as often as described and
nothing else is, lists keep their order, the groups of an ordered rule are the authored ones, and
no offset, count or start was altered by narrowing. -/
theorem Rule.compiled_offsets_are_described {c : Catalog} {actor : Archetype} {r : Rule}
    {t : CompiledRule} (h : r.compile c actor = .ok t) :
    (∀ o, t.listed.count o = r.sampler.multiplicity o) ∧
    (∀ os, r.sampler = .offsets os → t.offsets.toList = os) ∧
    (∀ groups, r.sampler = .ordered groups →
      t.offsets.toList = groups.flatten ∧
      ∃ starts, t.starts = some starts ∧ CompiledRule.groupCount starts = groups.length ∧
        ∀ g (hg : g < groups.length),
          t.groupOffsets starts g = groups[g].map Sampler.widen) ∧
    t.listed = r.sampler.expand.offsets ∧
    t.count.toNat = r.sampler.expand.offsets.length ∧
    t.starts.map (fun starts => starts.toList.map UInt16.toNat) = r.sampler.expand.starts := by
  obtain ⟨hv, rfl⟩ := Rule.compile_eq_ok.mp h
  refine ⟨?_, ?_, ?_, hv.listed_tables, hv.tables_count, hv.tables_starts_eq⟩
  · intro o
    rw [hv.listed_tables, Sampler.count_expand]
  · intro os hos
    exact tables_offsets_of_widened (by rw [hos]; exact Sampler.offsets_once _ _)
  · intro groups hgroups
    exact ⟨tables_offsets_of_widened (by rw [hgroups, Sampler.offsets_ordered]),
      hv.exists_groups hgroups⟩

/-- Moss looks up three times as often as sideways; a walker's second group is a step down right. -/
theorem Rule.compiled_offsets_are_described_moss :
    (∃ t, Rule.compile .empty { name := "moss", color := 0 } { sampler := .radius 1 2 } = .ok t ∧
      t.listed.count (0, -1) = 3 ∧ t.listed.count (-1, 0) = 1 ∧ t.listed.count (0, 0) = 0) ∧
    ∃ t, Rule.compile .empty { name := "walker", color := 0 }
        { sampler := .ordered [[(0, 1), (0, 2)], [(1, 1)]] } = .ok t ∧
      t.offsets.toList = [(0, 1), (0, 2), (1, 1)] ∧
      ∃ starts, t.starts = some starts ∧ t.groupOffsets starts 1 = [(1, 1)] := by
  constructor
  · obtain ⟨t, ht⟩ : ∃ t, Rule.compile .empty { name := "moss", color := 0 }
        { sampler := .radius 1 2 } = .ok t :=
      ⟨_, Rule.compile_eq_ok.mpr ⟨Fault.ofRule?_eq_none.mp (by decide +kernel), rfl⟩⟩
    obtain ⟨hcount, -⟩ := Rule.compiled_offsets_are_described ht
    refine ⟨t, ht, ?_⟩
    simp only [hcount]
    decide
  · obtain ⟨t, ht⟩ : ∃ t, Rule.compile .empty { name := "walker", color := 0 }
        { sampler := .ordered [[(0, 1), (0, 2)], [(1, 1)]] } = .ok t :=
      ⟨_, Rule.compile_eq_ok.mpr ⟨Fault.ofRule?_eq_none.mp (by decide +kernel), rfl⟩⟩
    obtain ⟨-, -, hordered, -⟩ := Rule.compiled_offsets_are_described ht
    obtain ⟨hlist, starts, hstarts, -, hgroup⟩ := hordered _ rfl
    exact ⟨t, ht, hlist, starts, hstarts, hgroup 1 (by decide)⟩

end Sandfall
