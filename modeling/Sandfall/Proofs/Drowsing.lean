import Sandfall.Proofs.Plain
import Sandfall.Proofs.Reckon

/-! Falling asleep. A tick in which nothing acts stores the sums of all chunks that were active, so
from the next one on no chunk counts as changed and none is woken: every active chunk counts one
more quiet tick, and sleeps when it has counted far enough. What was stored and counted before only
matters to the first of these ticks. -/

namespace Sandfall.Chunks

variable {c d : Chunks} {g : Grid} {keepsAwake : MaterialId → Bool} {i n : Nat}

theorem toNat_tickUp (ticks : UInt8) : (tickUp ticks).toNat = min 255 (ticks.toNat + 1) := by
  have hlt := ticks.toNat_lt
  unfold tickUp
  split_ifs with hfull
  · rw [hfull]
    rfl
  · have hne : ticks.toNat ≠ 255 := fun heq => hfull (UInt8.toNat_inj.mp heq)
    rw [UInt8.toNat_add]
    change (ticks.toNat + 1) % 256 = _
    omega

theorem SameStamps.checksum (h : SameStamps c d) (g : Grid) (i : Nat) :
    d.checksum g i = c.checksum g i := by
  rw [checksum_eq, checksum_eq, h.contents]

theorem checksums_updateActivity (hi : i < c.count) :
    (c.updateActivity g keepsAwake).checksums[i]?
      = if c.isActive i then some (c.checksum g i) else c.checksums[i]? := by
  cases hactive : c.isActive i with
  | false => exact (passed_updateActivity hi hactive).sum
  | true =>
    obtain ⟨_, _, d, -, hbefore, hafter⟩ := exists_turn hi hactive g keepsAwake
    rw [hafter.sum, checksums_reconcile (hbefore.same.count ▸ hi)]
    exact if_pos rfl

/-- With sleep enabled, a quiet chunk in which nothing must stay awake counts one more tick, and
sleeps when these are enough. -/
theorem noteQuiet_own {keepsAwake : Nat → Bool} (hi : i < c.count)
    (henabled : c.sleepingEnabled = true) (hnone : ∀ k ∈ c.cellsOf i, keepsAwake k = false) :
    (c.noteQuiet keepsAwake i).isActive i
        = (c.isActive i && decide (tickUp (c.sleep[i]?.getD 0) < sleepThreshold)) ∧
      (c.noteQuiet keepsAwake i).sleep[i]?.getD 0 = tickUp (c.sleep[i]?.getD 0) := by
  have hin : i < total c.width c.height := hi
  have hkept : ¬(c.cellsOf i).any keepsAwake = true := by
    rw [List.any_eq_true]
    rintro ⟨k, hk, hkeep⟩
    cases (hnone k hk).symm.trans hkeep
  have hcounted : ∀ ticks, (c.sleep.setIfInBounds i ticks)[i]?.getD 0 = ticks := fun ticks => by
    rw [getD_setIfInBounds, if_pos ⟨rfl, hin⟩]
  by_cases hshort : tickUp (c.sleep[i]?.getD 0) < sleepThreshold
  · have hquiet : c.noteQuiet keepsAwake i = { c with
        sleep := c.sleep.setIfInBounds i (tickUp (c.sleep[i]?.getD 0)) } := by
      simp only [noteQuiet, henabled, hshort, decide_true, Bool.or_true, if_true]
    rw [hquiet, decide_eq_true hshort, Bool.and_true]
    exact ⟨rfl, hcounted _⟩
  · have hquiet : c.noteQuiet keepsAwake i = { c with
        sleep := c.sleep.setIfInBounds i (tickUp (c.sleep[i]?.getD 0))
        active := c.active.setIfInBounds i false
        slept := countUp c.slept } := by
      have hlong : ¬(!c.sleepingEnabled || decide (tickUp (c.sleep[i]?.getD 0) < sleepThreshold))
          = true := by
        simp only [henabled, hshort, decide_false, Bool.not_true, Bool.or_self, Bool.false_eq_true,
          not_false_eq_true]
      exact (if_neg hlong).trans (if_neg hkept)
    rw [hquiet, decide_eq_false hshort, Bool.and_false]
    refine ⟨?_, hcounted _⟩
    rw [isActive, getD_setIfInBounds, if_pos ⟨rfl, hin⟩]

theorem isStirred_of_current (hcurrent : ∀ j < c.count, c.checksums[j]? = some (c.checksum g j))
    (i : Nat) : c.isStirred g i = false := by
  rw [isStirred, List.any_eq_false]
  intro j hj hstirs
  have hsum := (of_decide_eq_true hstirs).2.1
  rw [hcurrent j (mem_turns.mp hj).1] at hsum
  exact hsum rfl

theorem updateActivity_own (hcurrent : ∀ j < c.count, c.checksums[j]? = some (c.checksum g j))
    (henabled : c.sleepingEnabled = true) (hi : i < c.count)
    (hnone : ∀ k ∈ c.cellsOf i, keepsAwake (g.cell k) = false) :
    (c.updateActivity g keepsAwake).isActive i
        = (c.isActive i && decide (tickUp (c.sleep[i]?.getD 0) < sleepThreshold)) ∧
      (c.isActive i = true →
        (c.updateActivity g keepsAwake).sleep[i]?.getD 0 = tickUp (c.sleep[i]?.getD 0)) := by
  have hstirred := isStirred_of_current hcurrent i
  cases hactive : c.isActive i with
  | false =>
    have hpassed : Passed i (c.isStirred g i) c (c.updateActivity g keepsAwake) :=
      passed_updateActivity hi hactive
    rw [hpassed.active, hstirred, hactive]
    exact ⟨rfl, nofun⟩
  | true =>
    obtain ⟨_, _, d, hwoken, hbefore, hafter⟩ := exists_turn hi hactive g keepsAwake
    rw [hstirred, Bool.or_eq_false_iff] at hwoken
    obtain ⟨rfl, rfl⟩ := hwoken
    have hsum : c.checksum g i = d.checksums[i]?.getD 0 := by
      rw [hbefore.sum, hcurrent i hi]
      rfl
    rw [reconcile, if_neg (not_not_intro hsum)] at hafter
    have hkept : ∀ k ∈ d.cellsOf i, keepsAwake (g.cell k) = false := hbefore.same.cellsOf i ▸ hnone
    obtain ⟨hown, hcount⟩ := noteQuiet_own (hbefore.same.count ▸ hi)
      (hbefore.enabled.trans henabled) hkept
    have hsleep : d.sleep[i]?.getD 0 = c.sleep[i]?.getD 0 := hbefore.sleep
    have hstays : d.isActive i = true := hbefore.active.trans hactive
    rw [hsleep, hstays] at hown
    rw [hsleep] at hcount
    exact ⟨hafter.active.trans hown, fun _ => hafter.sleep.trans hcount⟩

/-- Sleep is enabled, all stored sums are right, and every active chunk has been quiet for at least
so many ticks. -/
structure Drowsy (g : Grid) (n : Nat) (c : Chunks) : Prop where
  enabled : c.sleepingEnabled = true
  current : ∀ i < c.count, c.checksums[i]? = some (c.checksum g i)
  quiet : ∀ i, c.isActive i = true → n ≤ (c.sleep[i]?.getD 0).toNat

theorem current_updateActivity
    (h : ∀ i < c.count, c.isActive i = false → c.checksums[i]? = some (c.checksum g i)) :
    ∀ i < (c.updateActivity g keepsAwake).count, (c.updateActivity g keepsAwake).checksums[i]?
      = some ((c.updateActivity g keepsAwake).checksum g i) := by
  have hsame := sameStamps_updateActivity c g keepsAwake
  intro i hi
  rw [hsame.count] at hi
  rw [hsame.checksum, checksums_updateActivity hi]
  split_ifs with hactive
  · rfl
  · exact h i hi (Bool.eq_false_of_not_eq_true hactive)

section

variable (hnone : ∀ k, keepsAwake (g.cell k) = false)
include hnone

theorem Drowsy.counted (h : Drowsy g n c)
    (hactive : (c.updateActivity g keepsAwake).isActive i = true) :
    n < ((c.updateActivity g keepsAwake).sleep[i]?.getD 0).toNat ∧
      (c.updateActivity g keepsAwake).sleep[i]?.getD 0 < sleepThreshold := by
  have hi := lt_count_of_isActive hactive
  rw [(sameStamps_updateActivity c g keepsAwake).count] at hi
  obtain ⟨hown, hcount⟩ := updateActivity_own h.current h.enabled hi fun k _ => hnone k
  rw [hactive, eq_comm, Bool.and_eq_true, decide_eq_true_eq] at hown
  obtain ⟨hbefore, hshort⟩ := hown
  have hquiet := h.quiet i hbefore
  have hlt := UInt8.lt_iff_toNat_lt.mp hshort
  have htick := toNat_tickUp (c.sleep[i]?.getD 0)
  have hthreshold : sleepThreshold.toNat = 60 := rfl
  rw [hcount hbefore]
  -- the count is full long after it is enough
  exact ⟨by omega, hshort⟩

theorem Drowsy.updateActivity (h : Drowsy g n c) :
    Drowsy g (n + 1) (c.updateActivity g keepsAwake) where
  enabled := (sleepingEnabled_updateActivity c g keepsAwake).trans h.enabled
  current := current_updateActivity fun i hi _ => h.current i hi
  quiet _ hactive := (h.counted hnone hactive).1

end

end Sandfall.Chunks
