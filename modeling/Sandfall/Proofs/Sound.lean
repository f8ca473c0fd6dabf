import Sandfall.World.Step
import Sandfall.Proofs.Turns

/-! What holds of a scene at any time: grid and chunks have the same dimensions, these fit a word,
and stamps and put-off writes name cells of the grid. Deeds, flushes and the frame around the
passes keep it. -/

namespace Sandfall

namespace Stamps

variable {n : Nat}

/-- The marks are of this pass or wiped, and the list names every marked cell and only cells. -/
structure Listed (s : Stamps n) : Prop where
  parity : s.parity = 1 ∨ s.parity = 2
  within : ∀ i ∈ s.stamped, i.toNat < n
  listed : ∀ i, s.marks[i]?.getD 0 ≠ 0 → ∃ w ∈ s.stamped, w.toNat = i

theorem listed_fresh (n : Nat) : (fresh n).Listed where
  parity := .inl rfl
  within := by simp [fresh]
  listed := by
    intro i hi
    simp only [fresh, Vector.getElem?_replicate] at hi
    split_ifs at hi <;> simp at hi

theorem Listed.clear {s : Stamps n} (h : s.Listed) : s.clear.Listed where
  parity := h.parity
  within := by simp [Stamps.clear]
  listed := (listed_fresh n).listed

theorem toNat_ofNat_of_lt {i : Nat} (hi : i < n) (hn : n ≤ UInt32.size) :
    (UInt32.ofNat i).toNat = i :=
  UInt32.toNat_ofNat_of_lt' (Nat.lt_of_lt_of_le hi hn)

theorem Listed.stamp {s : Stamps n} (h : s.Listed) {i : Nat} (hi : i < n)
    (hword : i < UInt32.size) : (s.stamp i).Listed := by
  have hnumber : (UInt32.ofNat i).toNat = i := UInt32.toNat_ofNat_of_lt' hword
  unfold Stamps.stamp
  split_ifs with hstamped
  · exact h
  · refine ⟨h.parity, ?_, ?_⟩
    · intro w hw
      rcases List.mem_cons.mp hw with rfl | hw
      · rwa [hnumber]
      · exact h.within w hw
    · intro j hj
      by_cases hij : i = j
      · exact ⟨_, List.mem_cons_self .., hnumber.trans hij⟩
      · rw [Vector.getElem?_setIfInBounds_ne hij] at hj
        obtain ⟨w, hw, hwj⟩ := h.listed j hj
        exact ⟨w, List.mem_cons_of_mem _ hw, hwj⟩

theorem getElem?_wipe (ws : List UInt32) (marks : Vector UInt8 n) (j : Nat) :
    ((ws.foldl (fun marks i => marks.setIfInBounds i.toNat 0) marks)[j]?).getD 0
      = if ∃ w ∈ ws, w.toNat = j then 0 else marks[j]?.getD 0 := by
  induction ws generalizing marks with
  | nil => simp
  | cons w ws ih =>
    rw [List.foldl_cons, ih]
    by_cases hw : w.toNat = j
    · subst hw
      have hself : (marks.setIfInBounds w.toNat 0)[w.toNat]?.getD 0 = 0 := by
        rw [Vector.getElem?_setIfInBounds_self]
        split_ifs <;> rfl
      rw [hself, ite_self, if_pos ⟨w, List.mem_cons_self .., rfl⟩]
    · rw [Vector.getElem?_setIfInBounds_ne hw]
      simp [hw]

theorem Listed.beginPass_marks {s : Stamps n} (h : s.Listed) (i : Nat) :
    s.beginPass.marks[i]?.getD 0 = 0 := by
  rw [Stamps.beginPass, getElem?_wipe]
  split_ifs with hw
  · rfl
  · by_contra hne
    exact hw (h.listed i hne)

theorem Listed.beginPass {s : Stamps n} (h : s.Listed) : s.beginPass.Listed where
  parity := by
    rcases h.parity with hp | hp <;> simp [Stamps.beginPass, hp]
  within := by simp [Stamps.beginPass]
  listed := fun i hi => absurd (h.beginPass_marks i) hi

theorem Listed.beginPass_isStamped {s : Stamps n} (h : s.Listed) (i : Nat) :
    s.beginPass.isStamped i = false := by
  rw [isStamped, h.beginPass_marks i]
  rcases h.beginPass.parity with hp | hp <;> rw [hp] <;> rfl

end Stamps

/-- The write stays among so many cells. -/
def Write.Fits (n : Nat) : Write → Prop
  | .set i _ => i.toNat < n
  | .exchange source target _ _ => source.toNat < n ∧ target.toNat < n

namespace Scene

structure Sound (s : Scene) : Prop where
  width : s.chunks.width = s.grid.width
  height : s.chunks.height = s.grid.height
  narrow : s.grid.width ≤ Config.maxDimension
  short : s.grid.height ≤ Config.maxDimension
  stamps : s.chunks.stamps.Listed
  pass : ∀ w ∈ s.pending.pass, w.Fits s.grid.size
  tick : ∀ w ∈ s.pending.tick, w.Fits s.grid.size

namespace Sound

variable {s t : Scene}

/-- Every cell has a number that fits a word. -/
theorem size_le (h : s.Sound) : s.grid.size ≤ UInt32.size := by
  calc
    s.grid.width * s.grid.height ≤ 65535 * 65535 := Nat.mul_le_mul h.narrow h.short
    _ ≤ UInt32.size := by decide

theorem cells_eq (h : s.Sound) : s.chunks.width * s.chunks.height = s.grid.size := by
  rw [h.width, h.height]
  rfl

theorem word (h : s.Sound) {i : Nat} (hi : i < s.grid.size) : (UInt32.ofNat i).toNat = i :=
  Stamps.toNat_ofNat_of_lt hi h.size_le

/-- Cells, activity and random draws may change, as long as dimensions, stamps and put-off writes
stay. -/
theorem of_sameStamps (h : s.Sound) (hsize : s.SameSize t) (hchunks : s.chunks.SameStamps t.chunks)
    (hpending : t.pending = s.pending) : t.Sound where
  width := by rw [hchunks.width, hsize.1, h.width]
  height := by rw [hchunks.height, hsize.2, h.height]
  narrow := by rw [hsize.1]; exact h.narrow
  short := by rw [hsize.2]; exact h.short
  stamps := by
    obtain ⟨_, _, _, _, _, _, _, heq⟩ := hchunks
    rw [heq]
    exact h.stamps
  pass := by rw [hpending, hsize.size]; exact h.pass
  tick := by rw [hpending, hsize.size]; exact h.tick

theorem alike (h : s.Sound) (hst : s.Alike t) : t.Sound := by
  refine h.of_sameStamps ⟨by rw [hst.grid], by rw [hst.grid]⟩ ?_ hst.pending
  rw [hst.chunks]
  exact .refl _

theorem put (h : s.Sound) (i : Nat) (id : MaterialId) : (s.put i id).Sound :=
  h.of_sameStamps ⟨rfl, rfl⟩ (put_chunks s i id) rfl

theorem pushPass (h : s.Sound) {w : Write} (hw : w.Fits s.grid.size) :
    { s with pending := s.pending.pushPass w }.Sound := by
  refine ⟨h.width, h.height, h.narrow, h.short, h.stamps, ?_, h.tick⟩
  intro v hv
  rcases Array.mem_push.mp hv with hv | rfl
  · exact h.pass v hv
  · exact hw

theorem pushTick (h : s.Sound) {w : Write} (hw : w.Fits s.grid.size) :
    { s with pending := s.pending.pushTick w }.Sound := by
  refine ⟨h.width, h.height, h.narrow, h.short, h.stamps, h.pass, ?_⟩
  intro v hv
  rcases Array.mem_push.mp hv with hv | rfl
  · exact h.tick v hv
  · exact hw

theorem fits_ofSet (h : s.Sound) {i : Nat} (hi : i < s.grid.size) (id : MaterialId) :
    (Write.ofSet i id).Fits s.grid.size := by
  rw [Write.ofSet, Write.Fits, h.word hi]
  exact hi

theorem fits_ofExchange (h : s.Sound) {source target : Nat} (hs : source < s.grid.size)
    (ht : target < s.grid.size) (moving displaced : MaterialId) :
    (Write.ofExchange source target moving displaced).Fits s.grid.size := by
  rw [Write.ofExchange, Write.Fits, h.word hs, h.word ht]
  exact ⟨hs, ht⟩

theorem write (h : s.Sound) (commit : Commit) {i : Nat} (hi : i < s.grid.size) (id : MaterialId) :
    (s.write commit i id).Sound := by
  have hfits := h.fits_ofSet hi id
  cases commit with
  | immediate => exact h.put i id
  | endOfPass => exact h.pushPass hfits
  | endOfTick => exact h.pushTick hfits

theorem exchange (h : s.Sound) (commit : Commit) {source target : Nat} (hs : source < s.grid.size)
    (ht : target < s.grid.size) : (s.exchange commit source target).Sound := by
  have hfits := h.fits_ofExchange hs ht
  cases commit with
  | immediate => exact (h.put target _).put source _
  | endOfPass => exact h.pushPass (hfits _ _)
  | endOfTick => exact h.pushTick (hfits _ _)

theorem stamp (h : s.Sound) {i : Nat} (hi : i < s.grid.size) : (s.stamp i).Sound := by
  refine ⟨h.width, h.height, h.narrow, h.short, ?_, h.pass, h.tick⟩
  exact h.stamps.stamp (h.cells_eq ▸ hi) (Nat.lt_of_lt_of_le hi h.size_le)

theorem stampMove (h : s.Sound) (r : CompiledRule) {source target : Nat}
    (hs : source < s.grid.size) (ht : target < s.grid.size) :
    (s.stampMove r source target).Sound := by
  simp only [Scene.stampMove]
  split_ifs
  · exact (h.stamp ht).stamp hs
  · exact h.stamp hs
  · exact h.stamp ht
  · exact h

theorem move (h : s.Sound) (r : CompiledRule) {source target : Nat} (hs : source < s.grid.size)
    (ht : target < s.grid.size) : (s.move r source target).Sound := by
  have hex := h.exchange r.commit hs ht
  have hsize := (sameSize_exchange s r.commit source target).size
  rw [← hsize] at hs ht
  exact (hex.stampMove r hs ht).of_sameStamps ⟨rfl, rfl⟩ (.refl _) rfl

end Sound

/-- The cells that a deed names are cells of the grid. -/
def Names (s : Scene) : Deed → Prop
  | .place i _ => i < s.grid.size
  | .rewrite _ i _ => i < s.grid.size
  | .move _ source target => source < s.grid.size ∧ target < s.grid.size

theorem SameSize.names {s t : Scene} (h : s.SameSize t) {d : Deed} (hd : t.Names d) :
    s.Names d := by
  cases d with
  | place i id => exact Nat.lt_of_lt_of_eq hd h.size
  | rewrite r i id => exact Nat.lt_of_lt_of_eq hd h.size
  | move r source target =>
    exact ⟨Nat.lt_of_lt_of_eq hd.1 h.size, Nat.lt_of_lt_of_eq hd.2 h.size⟩

theorem Sound.enact {s : Scene} (h : s.Sound) {d : Deed} (hd : s.Names d) : (s.enact d).Sound := by
  cases d with
  | place i id => exact h.put i id
  | rewrite r i id => exact h.write r.commit hd id
  | move r source target => exact h.move r hd.1 hd.2

theorem names_of_byRule {s : Scene} {a : Actor} {r : CompiledRule} {d : Deed} (ha : a.Stands s)
    (hd : d.ByRule s a r) : s.Names d := by
  cases hd with
  | candidate hi => exact hi
  | actor => exact ha.inside
  | swap ht => exact ⟨ha.inside, ht⟩
  | throw ht => exact ⟨ha.inside, ht⟩
  | pull hi ht => exact ⟨hi, ht⟩

theorem Run.sound {b : RuleBook} {hs : Handlers} {pass : Pass} {s t : Scene} {ds : List Deed}
    (h : s.Run b hs pass ds t) (hsound : s.Sound) : t.Sound := by
  induction h with
  | nil => exact hsound
  | quiet _ ha ih => exact ih.alike ha
  | rule _ hst _ hd ih => exact ih.enact (names_of_byRule hst hd)
  | place _ _ _ _ hi _ _ ih => exact ih.enact hi

/-! Flushes, passes and ticks. -/

theorem Sound.beginPass {s : Scene} (h : s.Sound) : s.beginPass.Sound :=
  ⟨h.width, h.height, h.narrow, h.short, h.stamps.beginPass, h.pass, h.tick⟩

theorem sameSize_apply (s : Scene) (w : Write) : s.SameSize (s.apply w).2 := by
  cases w with
  | set i id => exact ⟨rfl, rfl⟩
  | exchange source target moving displaced =>
    simp only [apply]
    split_ifs <;> exact ⟨rfl, rfl⟩

theorem apply_pending (s : Scene) (w : Write) : (s.apply w).2.pending = s.pending := by
  cases w with
  | set i id => rfl
  | exchange source target moving displaced =>
    simp only [apply]
    split_ifs <;> rfl

theorem Sound.apply {s : Scene} (h : s.Sound) (w : Write) : (s.apply w).2.Sound := by
  cases w with
  | set i id => exact h.put _ id
  | exchange source target moving displaced =>
    simp only [Scene.apply]
    split_ifs
    · exact (h.put _ moving).put _ displaced
    · exact h

def land (s : Scene) (ws : List Write) : Scene := ws.foldl (fun s w => (s.apply w).2) s

theorem applyAll_snd (ws : List Write) (s : Scene) : (s.applyAll ws).2 = s.land ws := by
  have h : ∀ (ws : List Write) (n : Nat) (s : Scene),
      (ws.foldl (fun r w => (r.1 + (r.2.apply w).1, (r.2.apply w).2)) (n, s)).2 = s.land ws := by
    intro ws
    induction ws with
    | nil => intro n s; rfl
    | cons w ws ih =>
      intro n s
      exact ih _ _
  exact h ws 0 s

theorem land_cons (s : Scene) (w : Write) (ws : List Write) :
    s.land (w :: ws) = (s.apply w).2.land ws := rfl

theorem land_pending (ws : List Write) (s : Scene) : (s.land ws).pending = s.pending := by
  induction ws generalizing s with
  | nil => rfl
  | cons w ws ih => rw [land_cons, ih, apply_pending]

theorem Sound.land {s : Scene} (h : s.Sound) (ws : List Write) : (s.land ws).Sound := by
  induction ws generalizing s with
  | nil => exact h
  | cons w ws ih => exact ih (h.apply w)

/-- The scene with no writes waiting for the end of the pass. -/
def dropPass (s : Scene) : Scene := { s with pending := { s.pending with pass := #[] } }

def dropTick (s : Scene) : Scene := { s with pending := { s.pending with tick := #[] } }

theorem flushPass_snd (s : Scene) : s.flushPass.2 = s.dropPass.land s.pending.pass.toList :=
  applyAll_snd _ _

theorem flushTick_snd (s : Scene) : s.flushTick.2 = s.dropTick.land s.pending.tick.toList :=
  applyAll_snd _ _

theorem Sound.dropPass {s : Scene} (h : s.Sound) : s.dropPass.Sound :=
  ⟨h.width, h.height, h.narrow, h.short, h.stamps, by simp [Scene.dropPass], h.tick⟩

theorem Sound.dropTick {s : Scene} (h : s.Sound) : s.dropTick.Sound :=
  ⟨h.width, h.height, h.narrow, h.short, h.stamps, h.pass, by simp [Scene.dropTick]⟩

theorem alike_countWritten (x : Nat × Scene) : x.2.Alike (Scan.countWritten x) :=
  ⟨rfl, rfl, rfl, rfl⟩

theorem Sound.flushPass {s : Scene} (h : s.Sound) : s.flushPass.2.Sound := by
  rw [flushPass_snd]
  exact h.dropPass.land _

theorem Sound.flushTick {s : Scene} (h : s.Sound) : s.flushTick.2.Sound := by
  rw [flushTick_snd]
  exact h.dropTick.land _

theorem flushPass_pending (s : Scene) : s.flushPass.2.pending = ⟨#[], s.pending.tick⟩ := by
  rw [flushPass_snd, land_pending]
  rfl

theorem flushTick_pending (s : Scene) : s.flushTick.2.pending = ⟨s.pending.pass, #[]⟩ := by
  rw [flushTick_snd, land_pending]
  rfl

theorem flushPass_of_empty {s : Scene} (h : s.pending.pass = #[]) : s.flushPass.2 = s := by
  obtain ⟨grid, chunks, ⟨pass, tick⟩, random, trace, tally, notes⟩ := s
  obtain rfl : pass = #[] := h
  rfl

theorem flushTick_of_empty {s : Scene} (h : s.pending.tick = #[]) : s.flushTick.2 = s := by
  obtain ⟨grid, chunks, ⟨pass, tick⟩, random, trace, tally, notes⟩ := s
  obtain rfl : tick = #[] := h
  rfl

variable {b : RuleBook} {hs : Handlers} {pass : Pass}

theorem Sound.scan {s : Scene} (h : s.Sound) (b : RuleBook) (hs : Handlers) (pass : Pass) :
    (Scan.scan b hs pass s).Sound :=
  (Scan.scan_run b hs pass s).sound h.beginPass

theorem Sound.runPass {s : Scene} (h : s.Sound) (b : RuleBook) (hs : Handlers) (pass : Pass) :
    (Scan.runPass b hs pass s).Sound := by
  rw [Scan.runPass_eq]
  exact (h.scan b hs pass).flushPass.alike (alike_countWritten _)

theorem Sound.beginTick {s : Scene} (h : s.Sound) : (World.beginTick s).Sound :=
  h.of_sameStamps ⟨rfl, rfl⟩ ⟨_, _, _, _, _, _, _, rfl⟩ rfl

theorem Sound.updateActivity {s : Scene} (h : s.Sound) (b : RuleBook) :
    (World.updateActivity b s).Sound :=
  h.of_sameStamps ⟨rfl, rfl⟩ (Chunks.sameStamps_updateActivity _ _ _) rfl

/-- A tick before its activity is reckoned. -/
def afterPasses (b : RuleBook) (hs : Handlers) (s : Scene) : Scene :=
  Scan.runPass b hs .falling (Scan.runPass b hs .rising (World.beginTick s))

theorem tick_eq (b : RuleBook) (hs : Handlers) (s : Scene) :
    World.tick b hs s
      = World.updateActivity b (Scan.countWritten (afterPasses b hs s).flushTick) := rfl

theorem Sound.worldTick {s : Scene} (h : s.Sound) (b : RuleBook) (hs : Handlers) :
    (World.tick b hs s).Sound := by
  have hpasses : (afterPasses b hs s).Sound :=
    (h.beginTick.runPass b hs .rising).runPass b hs .falling
  rw [tick_eq]
  exact (hpasses.flushTick.alike (alike_countWritten _)).updateActivity b

theorem tick_pending (b : RuleBook) (hs : Handlers) (s : Scene) :
    (World.tick b hs s).pending = .empty := by
  have hpass : (afterPasses b hs s).pending.pass = #[] := by
    rw [afterPasses, Scan.runPass_eq, (alike_countWritten _).pending, flushPass_pending]
  have hactivity : ∀ t, (World.updateActivity b t).pending = t.pending := fun _ => rfl
  rw [tick_eq, hactivity, (alike_countWritten _).pending, flushTick_pending, hpass]
  rfl

end Scene

end Sandfall
