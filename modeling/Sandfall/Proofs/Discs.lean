import Mathlib.Tactic
import Sandfall.Proofs.History

/-! The numbers of a disc. The brush reckons in words: borders, distances and squares wrap. For a
disc whose own numbers fit into words none of them does, and then the brush goes over the places of
the grid that lie within the radius, and looks for chunks between the true borders. -/

namespace Sandfall

def InWord (n : Int) : Prop := -0x80000000 ≤ n ∧ n < 0x80000000

instance (n : Int) : Decidable (InWord n) :=
  inferInstanceAs (Decidable (-0x80000000 ≤ n ∧ n < 0x80000000))

namespace InWord

variable {a b : Int32}

theorem toInt (a : Int32) : InWord a.toInt := ⟨a.le_toInt, a.toInt_lt⟩

theorem bmod_eq {n : Int} (h : InWord n) : n.bmod (2 ^ 32) = n := by
  unfold InWord at h
  exact Int.bmod_eq_of_le (by push_cast; omega) (by push_cast; omega)

theorem toInt_add (h : InWord (a.toInt + b.toInt)) : (a + b).toInt = a.toInt + b.toInt := by
  rw [Int32.toInt_add, h.bmod_eq]

theorem toInt_sub (h : InWord (a.toInt - b.toInt)) : (a - b).toInt = a.toInt - b.toInt := by
  rw [Int32.toInt_sub, h.bmod_eq]

theorem toInt_mul (h : InWord (a.toInt * b.toInt)) : (a * b).toInt = a.toInt * b.toInt := by
  rw [Int32.toInt_mul, h.bmod_eq]

theorem toInt_neg (h : InWord (-a.toInt)) : (-a).toInt = -a.toInt := by
  rw [Int32.toInt_neg, h.bmod_eq]

theorem toInt_ofNat {n : Nat} (h : n ≤ Config.maxDimension) : (Int32.ofNat n).toInt = n :=
  Int32.toInt_ofNat_of_lt (Nat.lt_of_le_of_lt h (by decide))

/-- The last place along a side, also of an empty one. -/
theorem toInt_last {n : Nat} (h : n ≤ Config.maxDimension) : (Int32.ofNat n - 1).toInt = n - 1 := by
  have hone : (1 : Int32).toInt = 1 := rfl
  rw [toInt_sub, toInt_ofNat h, hone]
  rw [toInt_ofNat h, hone]
  unfold Config.maxDimension at h
  unfold InWord
  omega

theorem toInt_max (a b : Int32) : (max a b).toInt = max a.toInt b.toInt := by
  change (if a ≤ b then b else a).toInt = _
  split_ifs with hle <;> rw [Int32.le_iff_toInt_le] at hle <;> omega

theorem toInt_min (a b : Int32) : (min a b).toInt = min a.toInt b.toInt := by
  change (if a ≤ b then a else b).toInt = _
  split_ifs with hle <;> rw [Int32.le_iff_toInt_le] at hle <;> omega

end InWord

/-- The numbers that the brush works out for a disc fit into words: its borders, and a sum of two
squares. -/
structure DiscFits (cx cy radius : Int32) : Prop where
  left : InWord (cx.toInt - radius.toInt)
  right : InWord (cx.toInt + radius.toInt)
  top : InWord (cy.toInt - radius.toInt)
  bottom : InWord (cy.toInt + radius.toInt)
  squares : InWord (radius.toInt * radius.toInt + radius.toInt * radius.toInt)

instance (cx cy radius : Int32) : Decidable (DiscFits cx cy radius) :=
  decidable_of_iff (InWord (cx.toInt - radius.toInt) ∧ InWord (cx.toInt + radius.toInt) ∧
      InWord (cy.toInt - radius.toInt) ∧ InWord (cy.toInt + radius.toInt) ∧
      InWord (radius.toInt * radius.toInt + radius.toInt * radius.toInt))
    ⟨fun ⟨hl, hr, ht, hb, hs⟩ => ⟨hl, hr, ht, hb, hs⟩,
      fun ⟨hl, hr, ht, hb, hs⟩ => ⟨hl, hr, ht, hb, hs⟩⟩

theorem near_of_disc {dx dy radius : Int} (hr : 0 ≤ radius)
    (h : dx * dx + dy * dy ≤ radius * radius) : -radius ≤ dx ∧ dx ≤ radius := by
  constructor <;> nlinarith [mul_self_nonneg dy]

section

variable {centre radius : Int32} {side : Nat} (hlow : InWord (centre.toInt - radius.toInt))
  (hhigh : InWord (centre.toInt + radius.toInt))

include hlow hhigh in
theorem offset_iff {p : Nat} (hp : p ≤ Config.maxDimension) {d : Int32} :
    (centre + d = Int32.ofNat p ∧ -radius ≤ d ∧ d ≤ radius) ↔
      d.toInt = p - centre.toInt ∧ -radius.toInt ≤ d.toInt ∧ d.toInt ≤ radius.toInt := by
  have hradius := InWord.toInt radius
  unfold InWord at hlow hhigh hradius
  have hneg : (-radius).toInt = -radius.toInt := InWord.toInt_neg (by unfold InWord; omega)
  rw [Int32.le_iff_toInt_le, Int32.le_iff_toInt_le, hneg]
  refine and_congr_left fun hd => ?_
  have hsum : (centre + d).toInt = centre.toInt + d.toInt :=
    InWord.toInt_add (by unfold InWord; omega)
  rw [← Int32.toInt_inj, hsum, InWord.toInt_ofNat hp]
  omega

theorem toInt_distance {p : Nat} (hnear : -radius.toInt ≤ p - centre.toInt ∧
    p - centre.toInt ≤ radius.toInt) (hp : p ≤ Config.maxDimension) :
    (Int32.ofNat p - centre).toInt = p - centre.toInt := by
  have hradius := InWord.toInt radius
  rw [InWord.toInt_sub, InWord.toInt_ofNat hp]
  rw [InWord.toInt_ofNat hp]
  unfold Config.maxDimension at hp
  unfold InWord at hradius ⊢
  omega

include hlow in
theorem toInt_low : (max (centre - radius) 0).toInt = max (centre.toInt - radius.toInt) 0 := by
  rw [InWord.toInt_max, InWord.toInt_sub hlow]
  rfl

include hhigh in
theorem toInt_high (hside : side ≤ Config.maxDimension) :
    (min (centre + radius) (Int32.ofNat side - 1)).toInt
      = min (centre.toInt + radius.toInt) (side - 1) := by
  rw [InWord.toInt_min, InWord.toInt_add hhigh, InWord.toInt_last hside]

include hlow hhigh in
/-- A disc whose borders fit into words and that reaches the grid has its centre near the grid. -/
theorem centre_near (hside : side ≤ Config.maxDimension)
    (hreaches : max (centre.toInt - radius.toInt) 0
      ≤ min (centre.toInt + radius.toInt) (side - 1)) :
    -0x40000000 ≤ centre.toInt ∧ centre.toInt ≤ 0x40010000 := by
  unfold InWord at hlow hhigh
  unfold Config.maxDimension at hside
  omega

end

theorem squares_le_iff {dx dy radius : Int32}
    (hsquares : InWord (radius.toInt * radius.toInt + radius.toInt * radius.toInt))
    (hdx : -radius.toInt ≤ dx.toInt ∧ dx.toInt ≤ radius.toInt)
    (hdy : -radius.toInt ≤ dy.toInt ∧ dy.toInt ≤ radius.toInt) :
    dx * dx + dy * dy ≤ radius * radius ↔ dx.toInt * dx.toInt + dy.toInt * dy.toInt
      ≤ radius.toInt * radius.toInt := by
  have hx : dx.toInt * dx.toInt ≤ radius.toInt * radius.toInt := by nlinarith
  have hy : dy.toInt * dy.toInt ≤ radius.toInt * radius.toInt := by nlinarith
  have hx' := mul_self_nonneg dx.toInt
  have hy' := mul_self_nonneg dy.toInt
  unfold InWord at hsquares
  have hxx : (dx * dx).toInt = dx.toInt * dx.toInt := InWord.toInt_mul (by unfold InWord; omega)
  have hyy : (dy * dy).toInt = dy.toInt * dy.toInt := InWord.toInt_mul (by unfold InWord; omega)
  have hrr : (radius * radius).toInt = radius.toInt * radius.toInt :=
    InWord.toInt_mul (by unfold InWord; omega)
  rw [Int32.le_iff_toInt_le, InWord.toInt_add, hxx, hyy, hrr]
  rw [hxx, hyy]
  unfold InWord
  omega

/-! Words of twice the size hold the squares of any distance but the longest. -/

theorem toInt_sub64 (a b : Int32) : (a.toInt64 - b.toInt64).toInt = a.toInt - b.toInt := by
  have ha := InWord.toInt a
  have hb := InWord.toInt b
  unfold InWord at ha hb
  rw [Int64.toInt_sub, Int32.toInt_toInt64, Int32.toInt_toInt64]
  exact Int.bmod_eq_of_le (by push_cast; omega) (by push_cast; omega)

theorem toInt_mul64 {a : Int64} (h : -0x80000000 ≤ a.toInt ∧ a.toInt ≤ 0x80000000) :
    (a * a).toInt = a.toInt * a.toInt := by
  have hsquare : a.toInt * a.toInt ≤ 0x80000000 * 0x80000000 := by nlinarith
  have hpos := mul_self_nonneg a.toInt
  rw [Int64.toInt_mul]
  exact Int.bmod_eq_of_le (by push_cast; omega) (by push_cast; omega)

theorem squares64_le_iff {dx dy : Int64} (hdx : -0x80000000 < dx.toInt ∧ dx.toInt < 0x80000000)
    (hdy : -0x80000000 < dy.toInt ∧ dy.toInt < 0x80000000) (radius : Int32) :
    dx * dx + dy * dy ≤ radius.toInt64 * radius.toInt64 ↔
      dx.toInt * dx.toInt + dy.toInt * dy.toInt ≤ radius.toInt * radius.toInt := by
  have hx : dx.toInt * dx.toInt ≤ 0x7fffffff * 0x7fffffff := by nlinarith
  have hy : dy.toInt * dy.toInt ≤ 0x7fffffff * 0x7fffffff := by nlinarith
  have hx' := mul_self_nonneg dx.toInt
  have hy' := mul_self_nonneg dy.toInt
  have hradius := InWord.toInt radius
  have hwide : -0x80000000 ≤ radius.toInt64.toInt ∧ radius.toInt64.toInt ≤ 0x80000000 := by
    rw [Int32.toInt_toInt64]
    exact ⟨hradius.1, hradius.2.le⟩
  have hsum : (dx * dx + dy * dy).toInt = dx.toInt * dx.toInt + dy.toInt * dy.toInt := by
    rw [Int64.toInt_add, toInt_mul64 ⟨hdx.1.le, hdx.2.le⟩, toInt_mul64 ⟨hdy.1.le, hdy.2.le⟩]
    exact Int.bmod_eq_of_le (by push_cast; omega) (by push_cast; omega)
  rw [Int64.le_iff_toInt_le, hsum, toInt_mul64 hwide, Int32.toInt_toInt64]

namespace World

/-- If its numbers fit into words, the brush goes over the places of the grid within the radius. -/
theorem mem_discCells_of_fits {g : Grid} {cx cy radius : Int32} (hr : 0 ≤ radius)
    (hfits : DiscFits cx cy radius) (hwidth : g.width ≤ Config.maxDimension)
    (hheight : g.height ≤ Config.maxDimension) {x y : Nat} :
    (x, y) ∈ discCells g cx cy radius ↔ (x < g.width ∧ y < g.height) ∧
      ((x : Int) - cx.toInt) * (x - cx.toInt) + (y - cy.toInt) * (y - cy.toInt)
        ≤ radius.toInt * radius.toInt := by
  rw [mem_discCells]
  refine and_congr_right fun ⟨hx, hy⟩ => ?_
  simp only [offset_iff hfits.left hfits.right (hx.le.trans hwidth),
    offset_iff hfits.top hfits.bottom (hy.le.trans hheight)]
  constructor
  · rintro ⟨dx, dy, ⟨hdx, hnear⟩, ⟨hdy, hnear'⟩, hdisc⟩
    rwa [squares_le_iff hfits.squares hnear hnear', hdx, hdy] at hdisc
  · intro hdisc
    have hnonneg : 0 ≤ radius.toInt := Int32.le_iff_toInt_le.mp hr
    have hnear := near_of_disc hnonneg hdisc
    have hnear' := near_of_disc hnonneg (Int.add_comm _ _ ▸ hdisc)
    have hx' := toInt_distance hnear (hx.le.trans hwidth)
    have hy' := toInt_distance hnear' (hy.le.trans hheight)
    refine ⟨Int32.ofNat x - cx, Int32.ofNat y - cy, ?_, ?_, ?_⟩
    · rw [hx']
      exact ⟨rfl, hnear⟩
    · rw [hy']
      exact ⟨rfl, hnear'⟩
    · rwa [squares_le_iff hfits.squares (hx' ▸ hnear) (hy' ▸ hnear'), hx', hy']

end World

end Sandfall
