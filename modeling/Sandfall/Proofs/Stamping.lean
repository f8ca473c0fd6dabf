import Sandfall.Proofs.Load

/-! Stamps and when they expire. A mark holds the parity of its pass, and parities come back with
every second pass, so a mark that was not wiped would be taken for a new one. But the list names
every cell that is marked, each once, and when a pass begins the marks it names are wiped. -/

namespace Sandfall

namespace Stamps

variable {n : Nat} {s : Stamps n} {i : Nat}

/-- The cells that the list names, the last stamped first. -/
def cells (s : Stamps n) : List Nat := s.stamped.map UInt32.toNat

/-- The list names every cell stamped in this pass, and each once. -/
structure Exact (s : Stamps n) : Prop where
  listed : s.Listed
  current : ∀ i ∈ s.cells, s.isStamped i = true
  once : s.cells.Nodup

theorem Listed.parity_ne_zero (h : s.Listed) : s.parity ≠ 0 := by
  rcases h.parity with hp | hp <;> rw [hp] <;> decide

theorem Exact.mem_cells (h : s.Exact) : i ∈ s.cells ↔ s.isStamped i = true := by
  refine ⟨h.current i, fun hstamped => ?_⟩
  have hmark : s.marks[i]?.getD 0 = s.parity := of_decide_eq_true hstamped
  exact List.mem_map.mpr (h.listed.listed i (hmark ▸ h.listed.parity_ne_zero))

theorem Listed.exact_of_nil (h : s.Listed) (hnone : s.stamped = []) : s.Exact := by
  have hcells : s.cells = [] := by rw [cells, hnone, List.map_nil]
  exact ⟨h, by simp [hcells], by simp [hcells]⟩

theorem Exact.stamp (h : s.Exact) (hi : i < n) (hword : i < UInt32.size) : (s.stamp i).Exact := by
  have hstamped : ∀ j, (s.stamp i).isStamped j = true ↔ i = j ∨ s.isStamped j = true := by
    intro j
    rw [isStamped_stamp s hi, Bool.or_eq_true, decide_eq_true_iff]
  by_cases hagain : s.isStamped i = true
  · rwa [Stamps.stamp, if_pos hagain]
  · have hcells : (s.stamp i).cells = i :: s.cells := by
      rw [Stamps.stamp, if_neg hagain, cells, List.map_cons, UInt32.toNat_ofNat_of_lt' hword]
      rfl
    refine ⟨h.listed.stamp hi hword, ?_, ?_⟩
    · rw [hcells]
      refine List.forall_mem_cons.mpr ⟨(hstamped i).mpr (.inl rfl), fun j hj => ?_⟩
      exact (hstamped j).mpr (.inr (h.current j hj))
    · rw [hcells]
      exact List.nodup_cons.mpr ⟨fun hi => hagain (h.current i hi), h.once⟩

theorem Exact.mem_cells_stamp (h : s.Exact) (hi : i < n) (hword : i < UInt32.size) {j : Nat} :
    j ∈ (s.stamp i).cells ↔ i = j ∨ j ∈ s.cells := by
  rw [(h.stamp hi hword).mem_cells, h.mem_cells, isStamped_stamp s hi, Bool.or_eq_true,
    decide_eq_true_iff]

end Stamps

inductive Stamping where
  | beginPass
  | stamp (i : Nat)
  | clear
  | resize (width height : Nat)

namespace Stamping

/-- The cell has been stamped, and nothing but stamping has been done since. -/
def StampedSince (os : List Stamping) (i : Nat) : Prop :=
  ∃ before after, os = before ++ stamp i :: after ∧ ∀ o ∈ after, ∃ j, o = stamp j

theorem stampedSince_concat {os : List Stamping} {o : Stamping} {i : Nat} :
    StampedSince (os ++ [o]) i ↔ o = stamp i ∨ (∃ j, o = stamp j) ∧ StampedSince os i := by
  constructor
  · rintro ⟨before, after, hsplit, hafter⟩
    rcases List.eq_nil_or_concat' after with rfl | ⟨after, o', rfl⟩
    · obtain ⟨-, hlast⟩ := List.append_inj' hsplit rfl
      exact .inl (List.singleton_inj.mp hlast)
    · rw [← List.cons_append, ← List.append_assoc] at hsplit
      obtain ⟨rfl, hlast⟩ := List.append_inj' hsplit rfl
      obtain rfl := List.singleton_inj.mp hlast
      obtain ⟨hafter, hlast⟩ := List.forall_mem_append.mp hafter
      exact .inr ⟨hlast o (List.mem_singleton_self o), before, after, rfl, hafter⟩
  · rintro (rfl | ⟨hstamp, before, after, rfl, hafter⟩)
    · exact ⟨os, [], rfl, by simp⟩
    · refine ⟨before, after ++ [o], by simp, ?_⟩
      exact List.forall_mem_append.mpr ⟨hafter, List.forall_mem_singleton.mpr hstamp⟩

end Stamping

namespace Chunks

open Stamping (StampedSince)

def follow (c : Chunks) : Stamping → Chunks
  | .beginPass => c.beginPass
  | .stamp i => c.stamp i
  | .clear => c.clearStamps
  | .resize width height => c.resize width height

def followAll (c : Chunks) (os : List Stamping) : Chunks := os.foldl follow c

/-- Only cells of the map are stamped, and only those that a word can number. -/
def Allows (c : Chunks) : Stamping → Prop
  | .stamp i => i < c.width * c.height ∧ i < UInt32.size
  | _ => True

def AllowsAll (c : Chunks) : List Stamping → Prop
  | [] => True
  | o :: os => c.Allows o ∧ (c.follow o).AllowsAll os

instance (c : Chunks) : (o : Stamping) → Decidable (c.Allows o)
  | .stamp _ => inferInstanceAs (Decidable (_ ∧ _))
  | .beginPass | .clear | .resize .. => .isTrue trivial

instance decidableAllowsAll (c : Chunks) : (os : List Stamping) → Decidable (c.AllowsAll os)
  | [] => .isTrue trivial
  | o :: os =>
    have := decidableAllowsAll (c.follow o) os
    inferInstanceAs (Decidable (_ ∧ _))

theorem allowsAll_concat {c : Chunks} {os : List Stamping} {o : Stamping} :
    c.AllowsAll (os ++ [o]) ↔ c.AllowsAll os ∧ (c.followAll os).Allows o := by
  induction os generalizing c with
  | nil => simp [AllowsAll, followAll]
  | cons o' os ih =>
    rw [List.cons_append, AllowsAll, AllowsAll, ih, and_assoc]
    rfl

/-- Where stamps have just expired nothing is listed, as it should be. -/
theorem exact_of_expired {c : Chunks} {os : List Stamping} (hlisted : c.stamps.Listed)
    (hnone : c.stamps.stamped = []) (hos : ∀ i, ¬StampedSince os i) :
    c.stamps.Exact ∧ ∀ i, i ∈ c.stamps.cells ↔ StampedSince os i := by
  refine ⟨hlisted.exact_of_nil hnone, fun i => iff_of_false ?_ (hos i)⟩
  rw [Stamps.cells, hnone]
  exact List.not_mem_nil

/-- The list names the cells stamped since stamps have last expired. -/
theorem exact_followAll {width height : Nat} {sleeping : Bool} {os : List Stamping}
    (hos : (fresh width height sleeping).AllowsAll os) :
    ((fresh width height sleeping).followAll os).stamps.Exact ∧
      ∀ i, i ∈ ((fresh width height sleeping).followAll os).stamps.cells ↔ StampedSince os i := by
  induction os using List.reverseRecOn with
  | nil => exact exact_of_expired (Stamps.listed_fresh _) rfl fun i => by simp [StampedSince]
  | append_singleton os o ih =>
    obtain ⟨hbefore, ho⟩ := allowsAll_concat.mp hos
    obtain ⟨hexact, hcells⟩ := ih hbefore
    have hlast : (fresh width height sleeping).followAll (os ++ [o])
        = ((fresh width height sleeping).followAll os).follow o := List.foldl_concat ..
    rw [hlast]
    generalize (fresh width height sleeping).followAll os = c at hexact hcells ho
    have hexpired : (∀ j, o ≠ .stamp j) → ∀ i, ¬StampedSince (os ++ [o]) i := by
      intro hother i hstamped
      rcases Stamping.stampedSince_concat.mp hstamped with hi | ⟨⟨j, hj⟩, -⟩
      · exact hother i hi
      · exact hother j hj
    cases o with
    | beginPass => exact exact_of_expired hexact.listed.beginPass rfl (hexpired nofun)
    | clear => exact exact_of_expired hexact.listed.clear rfl (hexpired nofun)
    | resize width height => exact exact_of_expired (Stamps.listed_fresh _) rfl (hexpired nofun)
    | stamp i =>
      refine ⟨hexact.stamp ho.1 ho.2, fun j => ?_⟩
      have hmem : j ∈ (c.stamp i).stamps.cells ↔ i = j ∨ j ∈ c.stamps.cells :=
        hexact.mem_cells_stamp ho.1 ho.2
      rw [follow, hmem, hcells, Stamping.stampedSince_concat, Stamping.stamp.injEq,
        and_iff_right ⟨i, rfl⟩]

/-- Whatever has been done to the stamps of a map, a cell is stamped if it was stamped since the
pass began, or since stamps were cleared or made anew; and the list names these cells, each once. -/
theorem stamps_are_those_of_the_pass {width height : Nat} {sleeping : Bool} {os : List Stamping}
    (hos : (fresh width height sleeping).AllowsAll os) :
    (∀ i, ((fresh width height sleeping).followAll os).isStamped i = true ↔ StampedSince os i) ∧
      (∀ i, i ∈ ((fresh width height sleeping).followAll os).stamps.cells ↔ StampedSince os i) ∧
      ((fresh width height sleeping).followAll os).stamps.cells.Nodup := by
  obtain ⟨hexact, hcells⟩ := exact_followAll hos
  exact ⟨fun i => hexact.mem_cells.symm.trans (hcells i), hcells, hexact.once⟩

/-- The parity of the first pass comes back with the third, but its stamp does not. -/
theorem stamps_are_those_of_the_pass_third :
    ∃ os : List Stamping, os = [.beginPass, .stamp 10, .stamp 10, .beginPass, .beginPass, .stamp 7,
        .stamp 63] ∧ (ofSize 8 8).AllowsAll os ∧
      ((ofSize 8 8).followAll os).stamps.parity
        = ((ofSize 8 8).followAll [.beginPass]).stamps.parity ∧
      ((ofSize 8 8).followAll os).stamps.cells = [63, 7] ∧
      ((ofSize 8 8).followAll os).isStamped 7 = true ∧ ¬StampedSince os 10 := by
  have hallows : (fresh 8 8 true).AllowsAll
      [.beginPass, .stamp 10, .stamp 10, .beginPass, .beginPass, .stamp 7, .stamp 63] := by
    decide
  obtain ⟨hstamped, hlisted, -⟩ := stamps_are_those_of_the_pass hallows
  refine ⟨_, rfl, hallows, by decide, by decide, ?_, ?_⟩
  · exact (hstamped 7).mpr
      ⟨[.beginPass, .stamp 10, .stamp 10, .beginPass, .beginPass], [.stamp 63], rfl, by simp⟩
  · rw [← hlisted 10]
    decide

end Chunks

end Sandfall
