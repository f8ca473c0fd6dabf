import Sandfall.World.Persistence
import Sandfall.RuleBook.Compile
import Sandfall.Proofs.Sound

/-! Worlds and what may be done with them. A world is reached by commands from its creation; between
two commands its scene is sound and no write waits. -/

namespace Sandfall

/-- What the owner of a world may ask of it. -/
inductive Command where
  | set (x y : Int) (id : MaterialId)
  | fillDisc (cx cy radius : Int32) (id : MaterialId)
  | clear
  | step
  | load (bytes : List UInt8)
  | reset (seed : UInt32)
  | setSleeping (enabled : Bool)
  | enablePerf (enabled : Bool)
  | enableTrace (enabled : Bool)
  | bind (key : String) (h : Handler)
  | collectDirty

namespace World

def obey (w : World) : Command → World
  | .set x y id => (w.set x y id).2
  | .fillDisc cx cy radius id => (w.fillDisc cx cy radius id).2
  | .clear => w.clear
  | .step => w.step
  | .load bytes => w.afterLoad bytes
  | .reset seed => w.reset seed
  | .setSleeping enabled => w.setSleeping enabled
  | .enablePerf enabled => w.enablePerf enabled
  | .enableTrace enabled => w.enableTrace enabled
  | .bind key h => w.bind key h
  | .collectDirty => w.collectDirty.2

/-- The worlds of a rule book. -/
inductive Reached (b : RuleBook) : World → Prop
  | create {config : Config} {w : World} : create config b = .ok w → Reached b w
  | obey {w : World} (command : Command) : Reached b w → Reached b (w.obey command)

theorem Reached.stepMany {b : RuleBook} {w : World} (h : Reached b w) (n : Nat) :
    Reached b (w.stepMany n) := by
  induction n generalizing w with
  | zero => exact h
  | succ n ih => exact ih (h.obey .step)

theorem Reached.obeyAll {b : RuleBook} {w : World} (h : Reached b w) (commands : List Command) :
    Reached b (commands.foldl World.obey w) := by
  induction commands generalizing w with
  | nil => exact h
  | cons command commands ih => exact ih (h.obey command)

end World

namespace Snapshot

theorem ofLittleEndian_lt (bytes : List UInt8) : ofLittleEndian bytes < 256 ^ bytes.length := by
  induction bytes with
  | nil => simp [ofLittleEndian]
  | cons x bytes ih =>
    have hx := UInt8.toNat_lt x
    rw [ofLittleEndian] at ih ⊢
    rw [List.foldr_cons, List.length_cons, Nat.pow_succ]
    omega

theorem field_two_le (bytes : List UInt8) (start : Nat) :
    field bytes start 2 ≤ Config.maxDimension := by
  have hlt := ofLittleEndian_lt ((bytes.drop start).take 2)
  have hpow : 256 ^ ((bytes.drop start).take 2).length ≤ 256 ^ 2 :=
    Nat.pow_le_pow_right (by decide) (List.length_take_le _ _)
  rw [field]
  exact Nat.le_of_lt_succ (Nat.lt_of_lt_of_le hlt hpow)

theorem cellsBehind_eq_ok {bytes : List UInt8} {header width height : Nat} {cells : List MaterialId}
    (h : cellsBehind bytes header width height = .ok cells) :
    width ≠ 0 ∧ height ≠ 0 ∧ cells.length = width * height := by
  simp only [cellsBehind] at h
  split_ifs at h with hzero hshort hlong
  cases h
  push Not at hzero
  refine ⟨hzero.1, hzero.2, ?_⟩
  rw [List.length_drop]
  omega

/-- A save that is read has dimensions in range and a cell for each place. -/
structure Sized (s : Snapshot) : Prop where
  width : s.width ≤ Config.maxDimension
  height : s.height ≤ Config.maxDimension
  cells : s.cells.length = s.width * s.height

theorem decodeVersioned_sized {bytes : List UInt8} {s : Snapshot}
    (h : decodeVersioned bytes = .ok s) : s.Sized := by
  simp only [decodeVersioned] at h
  split at h
  · cases h
  · split at h
    · cases h
    · next header _ =>
      by_cases hlen : bytes.length < header
      · rw [if_pos hlen] at h
        cases h
      rw [if_neg hlen] at h
      split at h
      · cases h
      · next hcells =>
        cases h
        exact ⟨field_two_le bytes 5, field_two_le bytes 7, (cellsBehind_eq_ok hcells).2.2⟩

theorem decodeLegacy?_sized {bytes : List UInt8} {s : Snapshot}
    (h : decodeLegacy? bytes = some s) : s.Sized := by
  simp only [decodeLegacy?] at h
  split_ifs at h
  split at h
  · cases h
  · next hcells =>
    cases h
    exact ⟨field_two_le bytes 4, field_two_le bytes 6, (cellsBehind_eq_ok hcells).2.2⟩

theorem decode_sized {bytes : List UInt8} {s : Snapshot} (h : decode bytes = .ok s) : s.Sized := by
  unfold decode at h
  split_ifs at h
  split at h
  · next hversioned =>
    cases h
    exact decodeVersioned_sized hversioned
  · split at h
    · next hlegacy =>
      cases h
      exact decodeLegacy?_sized hlegacy
    · cases h

end Snapshot

namespace World

/-- Reading a save changes nothing, whatever becomes of it. -/
theorem readSave_run (w : World) (bytes : List UInt8) :
    (readSave bytes).run w = match Snapshot.decode bytes with
      | .error e => .error e w
      | .ok s =>
        match firstUnknown? w.book s.cells with
        | some e => .error e w
        | none => .ok s w := by
  unfold readSave
  cases Snapshot.decode bytes with
  | error e => rfl
  | ok s =>
    change (match firstUnknown? w.book s.cells with
      | some e => throw e
      | none => pure s : EStateM SaveError World Snapshot).run w = _
    cases hunknown : firstUnknown? w.book s.cells <;> simp only [hunknown] <;> rfl

theorem takeOver_run (w : World) (s : Snapshot) : (takeOver s).run w = .ok () (w.restore s) := rfl

theorem loadHere_run (w : World) (bytes : List UInt8) :
    (loadHere bytes).run w = match Snapshot.decode bytes with
      | .error e => .error e w
      | .ok s =>
        match firstUnknown? w.book s.cells with
        | some e => .error e w
        | none => .ok () (w.restore s) := by
  have hread := readSave_run w bytes
  unfold EStateM.run at hread
  change EStateM.bind (readSave bytes) takeOver w = _
  unfold EStateM.bind
  rw [hread]
  cases Snapshot.decode bytes with
  | error e => rfl
  | ok s =>
    cases hunknown : firstUnknown? w.book s.cells <;> simp only [hunknown]
    exact takeOver_run w s

theorem load_eq_ok {w w' : World} {bytes : List UInt8} (h : w.load bytes = .ok w') :
    ∃ s : Snapshot, Snapshot.decode bytes = .ok s ∧ s.Sized ∧ w' = w.restore s := by
  unfold load at h
  rw [loadHere_run] at h
  split at h
  · next hrun =>
    split at hrun
    · cases hrun
    · next s hs =>
      split at hrun
      · cases hrun
      · cases hrun
        cases h
        exact ⟨s, hs, Snapshot.decode_sized hs, rfl⟩
  · cases h

/-- A load that fails leaves the world as it was. -/
theorem afterLoad_eq (w : World) (bytes : List UInt8) :
    w.afterLoad bytes = match w.load bytes with
      | .ok w' => w'
      | .error _ => w := by
  unfold afterLoad load
  rw [loadHere_run]
  cases Snapshot.decode bytes with
  | error e => rfl
  | ok s => cases hunknown : firstUnknown? w.book s.cells <;> simp [hunknown]

/-- Between two commands: the scene is sound, no write waits, and the book is the one given. -/
structure Rested (b : RuleBook) (w : World) : Prop where
  book : w.book = b
  sound : w.scene.Sound
  pending : w.scene.pending = .empty

theorem sound_fresh {width height : Nat} (hw : width ≤ Config.maxDimension)
    (hh : height ≤ Config.maxDimension) (sleeping : Bool) (seed : UInt32) :
    (Scene.fresh width height sleeping seed).Sound := by
  have hblank : Scene.Sound { Scene.fresh width height sleeping seed with
      chunks := Chunks.ofSize width height } :=
    ⟨rfl, rfl, hw, hh, Stamps.listed_fresh _, by simp [Scene.fresh, Pending.empty],
      by simp [Scene.fresh, Pending.empty]⟩
  exact hblank.of_sameStamps ⟨rfl, rfl⟩ (Chunks.sameStamps_setSleepingEnabled _ _) rfl

theorem sound_settle {s : Scene} (hw : s.chunks.width = s.grid.width)
    (hh : s.chunks.height = s.grid.height) (hnarrow : s.grid.width ≤ Config.maxDimension)
    (hshort : s.grid.height ≤ Config.maxDimension) (hstamps : s.chunks.stamps.Listed) :
    (settle s).Sound := by
  have hclear : Scene.Sound { s with pending := .empty, chunks := s.chunks.clearStamps } :=
    ⟨hw, hh, hnarrow, hshort, hstamps.clear, by simp [Pending.empty], by simp [Pending.empty]⟩
  have hsums : s.chunks.clearStamps.SameStamps s.chunks.clearStamps.resetChecksums :=
    ⟨_, _, _, _, _, _, _, rfl⟩
  exact hclear.of_sameStamps ⟨rfl, rfl⟩ (hsums.trans (Chunks.sameStamps_wakeAll _)) rfl

theorem fitChunks_size (c : Chunks) (width height : Nat) :
    (fitChunks c width height).width = width ∧ (fitChunks c width height).height = height ∧
      (fitChunks c width height).sleepingEnabled = c.sleepingEnabled := by
  unfold fitChunks
  split_ifs with hsame
  · exact ⟨hsame.1.symm, hsame.2.symm, rfl⟩
  · exact ⟨rfl, rfl, rfl⟩

theorem listed_fitChunks {c : Chunks} (h : c.stamps.Listed) (width height : Nat) :
    (fitChunks c width height).stamps.Listed := by
  by_cases hsame : width = c.width ∧ height = c.height
  · rw [fitChunks, if_pos hsame]
    exact h
  · rw [fitChunks, if_neg hsame]
    exact Stamps.listed_fresh _

theorem sound_restore {w : World} (h : w.scene.Sound) {s : Snapshot} (hs : s.Sized) :
    (w.restore s).scene.Sound := by
  obtain ⟨hw, hh, -⟩ := fitChunks_size w.scene.chunks s.width s.height
  exact sound_settle hw hh hs.width hs.height (listed_fitChunks h.stamps s.width s.height)

theorem sameSize_paint (cells : List (Nat × Nat)) (id : MaterialId) (g : Grid) :
    (cells.foldl (fun g (x, y) => g.set (g.index x y) id) g).width = g.width ∧
      (cells.foldl (fun g (x, y) => g.set (g.index x y) id) g).height = g.height := by
  induction cells generalizing g with
  | nil => exact ⟨rfl, rfl⟩
  | cons c cells ih => exact ih _

theorem mem_discReach {side p : Nat} {centre radius d : Int32} :
    (p, d) ∈ discReach side centre radius ↔
      p < side ∧ centre + d = Int32.ofNat p ∧ -radius ≤ d ∧ d ≤ radius := by
  have hsum : centre + d = Int32.ofNat p ↔ Int32.ofNat p - centre = d := by grind
  simp only [discReach, List.mem_filter, List.mem_map, List.mem_range, Prod.mk.injEq,
    Bool.and_eq_true, decide_eq_true_eq, hsum]
  grind

/-- Going through all offsets up to the radius, the brush paints where an offset whose squares are
small enough leads into the grid. -/
theorem mem_discCells {g : Grid} {cx cy radius : Int32} {x y : Nat} :
    (x, y) ∈ discCells g cx cy radius ↔ (x < g.width ∧ y < g.height) ∧ ∃ dx dy : Int32,
      (cx + dx = Int32.ofNat x ∧ -radius ≤ dx ∧ dx ≤ radius) ∧
      (cy + dy = Int32.ofNat y ∧ -radius ≤ dy ∧ dy ≤ radius) ∧
      dx * dx + dy * dy ≤ radius * radius := by
  simp only [discCells, List.mem_flatMap, List.mem_map, List.mem_filter, Prod.exists,
    mem_discReach, decide_eq_true_eq, Prod.mk.injEq]
  grind

variable {b : RuleBook} {w : World}

theorem Rested.obey (h : w.Rested b) (command : Command) : (w.obey command).Rested b := by
  obtain ⟨hbook, hsound, hpending⟩ := h
  cases command with
  | set x y id =>
    simp only [World.obey, World.set, Scene.place]
    split_ifs
    · exact ⟨hbook, hsound.put _ id, hpending⟩
    · exact ⟨hbook, hsound, hpending⟩
  | fillDisc cx cy radius id =>
    simp only [World.obey, World.fillDisc]
    split_ifs with hno hnone
    · exact ⟨hbook, hsound, hpending⟩
    · exact ⟨hbook, hsound.of_sameStamps (sameSize_paint _ _ _) (.refl _) rfl, hpending⟩
    · exact ⟨hbook, hsound.of_sameStamps (sameSize_paint _ _ _)
        (Chunks.sameStamps_wakeDisc _ _ _ _) rfl, hpending⟩
  | clear =>
    have hwipe : Scene.Sound { w.scene with
        grid := w.scene.grid.clear, pending := .empty, chunks := w.scene.chunks.clearStamps } :=
      ⟨hsound.width, hsound.height, hsound.narrow, hsound.short, hsound.stamps.clear,
        by simp [Pending.empty], by simp [Pending.empty]⟩
    exact ⟨hbook, hwipe.of_sameStamps ⟨rfl, rfl⟩ (Chunks.sameStamps_wakeAll _) rfl, rfl⟩
  | step =>
    refine ⟨?_, ?_, ?_⟩
    · simpa only [World.obey, World.step] using hbook
    · simpa only [World.obey, World.step] using hsound.worldTick w.book w.handlers
    · simpa only [World.obey, World.step] using Scene.tick_pending w.book w.handlers w.scene
  | load bytes =>
    simp only [World.obey, afterLoad_eq]
    cases hload : w.load bytes with
    | error e => exact ⟨hbook, hsound, hpending⟩
    | ok w' =>
      obtain ⟨s, -, hsized, rfl⟩ := load_eq_ok hload
      exact ⟨hbook, sound_restore hsound hsized, rfl⟩
  | reset seed =>
    exact ⟨hbook, sound_settle hsound.width hsound.height hsound.narrow hsound.short hsound.stamps,
      rfl⟩
  | setSleeping enabled =>
    exact ⟨hbook, hsound.of_sameStamps ⟨rfl, rfl⟩ (Chunks.sameStamps_setSleepingEnabled _ _) rfl,
      hpending⟩
  | enablePerf enabled => exact ⟨hbook, hsound, hpending⟩
  | enableTrace enabled =>
    exact ⟨hbook, hsound.of_sameStamps ⟨rfl, rfl⟩ (.refl _) rfl, hpending⟩
  | bind key h => exact ⟨hbook, hsound, hpending⟩
  | collectDirty =>
    exact ⟨hbook, hsound.of_sameStamps ⟨rfl, rfl⟩ ⟨_, _, _, _, _, _, _, rfl⟩ rfl, hpending⟩

theorem create_eq_ok {config : Config} (h : create config b = .ok w) :
    config.width.toNat ≤ Config.maxDimension ∧ config.height.toNat ≤ Config.maxDimension ∧
      w.book = b ∧ w.handlers = .none ∧
        w.scene = .fresh config.width.toNat config.height.toNat config.chunkSleeping config.seed := by
  unfold create at h
  split at h
  · cases h
  · next hcheck =>
    cases h
    unfold Config.check at hcheck
    split_ifs at hcheck with hrange
    push Not at hrange
    exact ⟨hrange.2.2.1, hrange.2.2.2, rfl, rfl, rfl⟩

theorem Reached.rested (h : Reached b w) : w.Rested b := by
  induction h with
  | create hcreate =>
    obtain ⟨hw, hh, hbook, -, hscene⟩ := create_eq_ok hcreate
    refine ⟨hbook, ?_, ?_⟩
    · rw [hscene]
      exact sound_fresh hw hh _ _
    · rw [hscene]
      rfl
  | obey command _ ih => exact ih.obey command

/-! New worlds and painted ones. -/

/-- The world a book and settings in range make. -/
def opened (config : Config) (b : RuleBook) : World where
  book := b
  handlers := .none
  scene := .fresh config.width.toNat config.height.toNat config.chunkSleeping config.seed
  seed := config.seed
  steps := 0
  perfEnabled := false
  perf := {}

theorem create_eq_ok_iff {config : Config} :
    create config b = .ok w ↔ config.check = none ∧ w = opened config b := by
  unfold create
  cases config.check with
  | some e => simp
  | none => simp [opened, eq_comm]

/-- A known material comes into a cell by the command that names its column and row. -/
theorem obey_set {i : Nat} {id : MaterialId} (hi : i < w.scene.grid.size)
    (hknown : w.book.isKnown id = true) :
    w.obey (.set (i % w.width : Nat) (i / w.width : Nat) id)
      = { w with scene := w.scene.put i id } := by
  have hwidth : 0 < w.width := Nat.pos_of_mul_pos_right (Nat.lt_of_le_of_lt (Nat.zero_le i) hi)
  have hx := Nat.mod_lt i hwidth
  have hy : i / w.width < w.height := Nat.div_lt_of_lt_mul hi
  have hin : w.scene.grid.inBounds (i % w.width : Nat) (i / w.width : Nat) = true :=
    Grid.inBounds_iff.mpr ⟨Int.natCast_nonneg _, Int.ofNat_lt.mpr hx, Int.natCast_nonneg _,
      Int.ofNat_lt.mpr hy⟩
  have hindex : w.scene.grid.index (i % w.width) (i / w.width) = i := by
    rw [Grid.index, Nat.mul_comm]
    exact Nat.div_add_mod i w.width
  simp only [obey, set, Scene.place, hin, hknown, Bool.and_self, if_true, Int.toNat_natCast, hindex]

/-- Some materials put into cells, one after the other. -/
def paint (s : Scene) (cells : List (Nat × MaterialId)) : Scene :=
  cells.foldl (fun s (i, id) => s.put i id) s

theorem Reached.paint (hw : Reached b w) {cells : List (Nat × MaterialId)}
    (hcells : ∀ c ∈ cells, c.1 < w.scene.grid.size ∧ b.isKnown c.2 = true) :
    Reached b { w with scene := World.paint w.scene cells } := by
  induction cells generalizing w with
  | nil => exact hw
  | cons c cells ih =>
    obtain ⟨⟨hi, hknown⟩, hcells⟩ := List.forall_mem_cons.mp hcells
    have hset := hw.obey (.set (c.1 % w.width : Nat) (c.1 / w.width : Nat) c.2)
    rw [obey_set hi (hw.rested.book ▸ hknown)] at hset
    exact ih hset hcells

/-- A new world may be painted with any known materials. -/
theorem exists_painted {config : Config} (hcheck : config.check = none)
    {cells : List (Nat × MaterialId)} (hcells : ∀ c ∈ cells,
      c.1 < config.width.toNat * config.height.toNat ∧ b.isKnown c.2 = true) :
    ∃ w, Reached b w ∧ w.handlers = .none ∧ w.scene = paint (.fresh config.width.toNat
      config.height.toNat config.chunkSleeping config.seed) cells :=
  ⟨_, (Reached.create (create_eq_ok_iff.mpr ⟨hcheck, rfl⟩)).paint hcells, rfl, rfl⟩

end World

end Sandfall
