import Sandfall.Proofs.Resume

/-! What loading and resetting leave behind. A settled chunk map is a fresh one but for its stamps
and counters, whatever map it was. So after the same save, or after a reset and in a new world, two
worlds match, and then they answer everything alike. -/

namespace Sandfall

namespace Chunks

namespace Twin

variable {c d e : Chunks}

theorem symm (h : Twin c d) : Twin d c := by
  obtain ⟨_, _, _, rfl⟩ := h
  exact ⟨_, _, _, rfl⟩

theorem trans (h : Twin c d) (h' : Twin d e) : Twin c e := by
  obtain ⟨_, _, _, rfl⟩ := h
  obtain ⟨_, _, _, rfl⟩ := h'
  exact ⟨_, _, _, rfl⟩

theorem setSleepingEnabled (h : Twin c d) (enabled : Bool) :
    Twin (c.setSleepingEnabled enabled) (d.setSleepingEnabled enabled) := by
  have hset : Twin { c with sleepingEnabled := enabled } { d with sleepingEnabled := enabled } := by
    obtain ⟨_, _, _, rfl⟩ := h
    exact ⟨_, _, _, rfl⟩
  cases enabled with
  | true => exact hset
  | false => exact hset.wakeAll

end Twin

/-- A map without checksums, all of whose chunks are woken, is as good as new. -/
theorem twin_settled (c : Chunks) : Twin (fresh c.width c.height c.sleepingEnabled)
    c.clearStamps.resetChecksums.wakeAll := by
  obtain ⟨_, hwake⟩ := c.clearStamps.resetChecksums.wakeAll_eq
  rw [hwake]
  exact ⟨_, _, _, rfl⟩

/-- Of the map before, its size and its setting remain. -/
theorem twin_settle {c d : Chunks} (hwidth : d.width = c.width) (hheight : d.height = c.height)
    (hsleeping : d.sleepingEnabled = c.sleepingEnabled) :
    Twin c.clearStamps.resetChecksums.wakeAll d.clearStamps.resetChecksums.wakeAll := by
  have hd := twin_settled d
  rw [hwidth, hheight, hsleeping] at hd
  exact (twin_settled c).symm.trans hd

theorem twin_setSleepingEnabled (width height : Nat) (enabled : Bool) :
    Twin (fresh width height enabled) ((ofSize width height).setSleepingEnabled enabled) := by
  cases enabled with
  | true => exact .refl _
  | false =>
    obtain ⟨_, hwake⟩ := (fresh width height false).wakeAll_eq
    exact ⟨_, _, _, hwake⟩

end Chunks

/-- What is asked of a world: a command, or a look at it. -/
inductive Request where
  | tell (command : Command)
  | save
  | get (x y : Int)
  | isActive (cx cy : Nat)

inductive Answer where
  | done
  | flag (b : Bool)
  | number (n : Nat)
  | refused (e : Option SaveError)
  | rects (rs : List Chunks.Rect)
  | bytes (bs : List UInt8)
  | material (id : MaterialId)

namespace World

def reply (w : World) : Command → Answer
  | .set x y id => .flag (w.set x y id).1
  | .fillDisc cx cy radius id => .number (w.fillDisc cx cy radius id).1
  | .load bytes =>
    match w.load bytes with
    | .ok _ => .refused none
    | .error e => .refused (some e)
  | .collectDirty => .rects w.collectDirty.1
  | _ => .done

def answer (w : World) : Request → Answer
  | .tell command => w.reply command
  | .save => .bytes w.save
  | .get x y => .material (w.get x y)
  | .isActive cx cy => .flag (w.scene.chunks.isActive (w.scene.chunks.indexOf cx cy))

def after (w : World) : Request → World
  | .tell command => w.obey command
  | _ => w

/-- The answers to requests made one after the other. -/
def answers (w : World) : List Request → List Answer
  | [] => []
  | r :: rs => w.answer r :: (w.after r).answers rs

variable {b : RuleBook} {v w : World}

/-- A save with all header fields leaves nothing of the world it is loaded into but its rules and
its setting. -/
theorem matched_restore (hbook : w.book = v.book) (hhandlers : w.handlers = v.handlers)
    (hsleeping : w.scene.chunks.sleepingEnabled = v.scene.chunks.sleepingEnabled) (s : Snapshot)
    (hseed : s.seed.getD w.seed = s.seed.getD v.seed) :
    Matched Chunks.Twin (v.restore s) (w.restore s) := by
  obtain ⟨hvw, hvh, hvs⟩ := fitChunks_size v.scene.chunks s.width s.height
  obtain ⟨hww, hwh, hws⟩ := fitChunks_size w.scene.chunks s.width s.height
  -- fitted to the save, the maps have one size, whether or not they were resized
  refine ⟨hbook, hhandlers, hseed, rfl, ⟨rfl, rfl, ?_, Random.nonzero_ne_zero _, ?_⟩⟩
  · exact congrArg (fun seed => Random.ofSeed (s.rng.getD seed)) hseed
  · exact Chunks.twin_settle (hww.trans hvw.symm) (hwh.trans hvh.symm)
      (hws.trans (hsleeping.trans hvs.symm))

theorem Matched.sleeping (h : Matched Chunks.Twin v w) :
    w.scene.chunks.sleepingEnabled = v.scene.chunks.sleepingEnabled := by
  obtain ⟨_, _, _, htwin⟩ := h.scene.chunks
  rw [htwin]

theorem Matched.load (h : Matched Chunks.Twin v w) (bytes : List UInt8) :
    w.reply (.load bytes) = v.reply (.load bytes) ∧
      Matched Chunks.Twin (v.obey (.load bytes)) (w.obey (.load bytes)) := by
  simp only [reply, World.obey, afterLoad_eq, load_eq, h.book]
  cases accepted v.book bytes with
  | error e => exact ⟨rfl, h⟩
  | ok s =>
    have hseed : s.seed.getD w.seed = s.seed.getD v.seed := by rw [h.seed]
    exact ⟨rfl, matched_restore h.book h.handlers h.sleeping s hseed⟩

theorem Matched.tell (h : Matched Chunks.Twin v w) (hv : v.Rested b) (hw : w.Rested b)
    (command : Command) : w.reply command = v.reply command ∧
      Matched Chunks.Twin (v.obey command) (w.obey command) := by
  have hbond := Chunks.bond_twin
  have hscene := h.scene
  cases command with
  | set x y id =>
    obtain ⟨hflag, hset⟩ := h.set hbond x y id
    exact ⟨congrArg Answer.flag hflag, hset⟩
  | fillDisc cx cy radius id =>
    obtain ⟨hcount, hfill⟩ := h.fillDisc hbond cx cy radius id
    exact ⟨congrArg Answer.number hcount, hfill⟩
  | clear => exact ⟨rfl, h.clear hbond⟩
  | step => exact ⟨rfl, h.step hbond hv hw⟩
  | load bytes => exact h.load bytes
  | reset seed =>
    refine ⟨rfl, h.book, h.handlers, rfl, rfl, ⟨congrArg Grid.clear hscene.grid, rfl, rfl,
      Random.nonzero_ne_zero _, ?_⟩⟩
    exact Chunks.twin_settle (hbond.width hscene.chunks) (hbond.height hscene.chunks) h.sleeping
  | setSleeping enabled =>
    exact ⟨rfl, h.book, h.handlers, h.seed, h.steps, ⟨hscene.grid, hscene.pending, hscene.random,
      hscene.live, hscene.chunks.setSleepingEnabled enabled⟩⟩
  | enablePerf enabled => exact ⟨rfl, h.book, h.handlers, h.seed, h.steps, hscene⟩
  | enableTrace enabled =>
    exact ⟨rfl, h.book, h.handlers, h.seed, h.steps, ⟨hscene.grid, hscene.pending, hscene.random,
      hscene.live, hscene.chunks⟩⟩
  | bind key handler =>
    refine ⟨rfl, h.book, ?_, h.seed, h.steps, hscene⟩
    simp only [World.obey, bind, h.book, h.handlers]
  | collectDirty =>
    obtain ⟨_, _, _, htwin⟩ := hscene.chunks
    have hrects : w.scene.chunks.dirtyRects = v.scene.chunks.dirtyRects := by
      rw [htwin]
      rfl
    have hclear : Chunks.Twin v.scene.chunks.clearDirty w.scene.chunks.clearDirty := by
      rw [htwin]
      exact ⟨_, _, _, rfl⟩
    exact ⟨congrArg Answer.rects hrects, h.book, h.handlers, h.seed, h.steps, ⟨hscene.grid,
      hscene.pending, hscene.random, hscene.live, hclear⟩⟩

theorem Matched.answer (h : Matched Chunks.Twin v w) (hv : v.Rested b) (hw : w.Rested b)
    (r : Request) :
    w.answer r = v.answer r ∧ Matched Chunks.Twin (v.after r) (w.after r) := by
  cases r with
  | tell command => exact h.tell hv hw command
  | save => exact ⟨congrArg Answer.bytes h.save, h⟩
  | get x y =>
    have hget : w.get x y = v.get x y := by rw [World.get, World.get, h.scene.grid]
    exact ⟨congrArg Answer.material hget, h⟩
  | isActive cx cy =>
    have hindex : w.scene.chunks.indexOf cx cy = v.scene.chunks.indexOf cx cy := by
      simp only [Chunks.indexOf, Chunks.across, Chunks.bond_twin.width h.scene.chunks]
    have hactive := Chunks.bond_twin.active h.scene.chunks (v.scene.chunks.indexOf cx cy)
    rw [← hindex] at hactive
    refine ⟨congrArg Answer.flag (hactive.trans ?_), h⟩
    rw [hindex]

theorem Reached.after (h : Reached b w) (r : Request) : Reached b (w.after r) := by
  cases r with
  | tell command => exact h.obey command
  | _ => exact h

/-- Matched worlds give the same answers for ever. -/
theorem Matched.answers (h : Matched Chunks.Twin v w) (hv : Reached b v) (hw : Reached b w)
    (rs : List Request) : w.answers rs = v.answers rs := by
  induction rs generalizing v w with
  | nil => rfl
  | cons r rs ih =>
    obtain ⟨hanswer, hafter⟩ := h.answer hv.rested hw.rested r
    rw [World.answers, World.answers, hanswer, ih hafter (hv.after r) (hw.after r)]

/-! New worlds. -/

def bindAll (w : World) (bindings : List (String × Handler)) : World :=
  bindings.foldl (fun w (key, h) => w.bind key h) w

theorem bindAll_eq (w : World) (bindings : List (String × Handler)) :
    ∃ handlers, w.bindAll bindings = { w with handlers } := by
  induction bindings generalizing w with
  | nil => exact ⟨_, rfl⟩
  | cons x bindings ih =>
    obtain ⟨_, hbind⟩ := ih (w.bind x.1 x.2)
    exact ⟨_, hbind⟩

theorem bindAll_book (w : World) (bindings : List (String × Handler)) :
    (w.bindAll bindings).book = w.book := by
  obtain ⟨_, hbind⟩ := w.bindAll_eq bindings
  rw [hbind]

theorem Reached.bindAll (h : Reached b w) (bindings : List (String × Handler)) :
    Reached b (w.bindAll bindings) := by
  induction bindings generalizing w with
  | nil => exact h
  | cons x bindings ih => exact ih (h.obey (.bind x.1 x.2))

theorem obey_handlers (w : World) (command : Command) :
    (w.obey command).handlers = w.handlers ∨ ∃ key h, w.obey command = w.bind key h := by
  cases command with
  | set x y id => exact .inl (set_handlers w x y id)
  | fillDisc cx cy radius id =>
    simp only [obey, fillDisc]
    split_ifs <;> exact .inl rfl
  | step => exact .inl (step_handlers w)
  | load bytes =>
    simp only [obey, afterLoad_eq, load_eq]
    cases accepted w.book bytes with
    | error e => exact .inl rfl
    | ok s => exact .inl rfl
  | bind key h => exact .inr ⟨key, h, rfl⟩
  | _ => exact .inl rfl

theorem Reached.exists_bindings (h : Reached b w) : ∃ bindings, ∀ w₀ : World, w₀.book = b →
    w₀.handlers = .none → (w₀.bindAll bindings).handlers = w.handlers := by
  induction h with
  | create hcreate =>
    obtain ⟨-, rfl⟩ := create_eq_ok_iff.mp hcreate
    exact ⟨[], fun w₀ _ hnone => hnone⟩
  | @obey w command hw ih =>
    obtain ⟨bindings, hall⟩ := ih
    rcases w.obey_handlers command with hsame | ⟨key, handler, hbind⟩
    · rw [hsame]
      exact ⟨bindings, hall⟩
    · refine ⟨bindings ++ [(key, handler)], fun w₀ hbook hnone => ?_⟩
      have hbook' : (w₀.bindAll bindings).book = w.book := by
        rw [bindAll_book, hbook, hw.rested.book]
      rw [hbind, World.bindAll, List.foldl_append]
      change ((w₀.bindAll bindings).bind key handler).handlers = (w.bind key handler).handlers
      simp only [bind, hbook', hall w₀ hbook hnone]

/-- The settings of a new world of the same size that sleeps or does not, as the other does. -/
def settings (v : World) (seed : UInt32) : Config where
  width := .ofNat v.width
  height := .ofNat v.height
  seed := seed
  chunkSleeping := v.scene.chunks.sleepingEnabled

/-- A new world with the book, the size and the setting of another, to which the same handlers have
been bound. -/
def NewLike (v : World) (seed : UInt32) (w : World) : Prop :=
  ∃ w₀ bindings, create (v.settings seed) v.book = .ok w₀ ∧ w = w₀.bindAll bindings ∧
    w.handlers = v.handlers

theorem NewLike.reached (h : v.book = b) {seed : UInt32} (hw : v.NewLike seed w) : Reached b w := by
  obtain ⟨w₀, bindings, hcreate, rfl, -⟩ := hw
  exact (Reached.create (h ▸ hcreate)).bindAll bindings

section

variable (h : v.Rested b) (seed : UInt32)
include h

theorem Rested.settings_size : (v.settings seed).width.toNat = v.width ∧
    (v.settings seed).height.toNat = v.height := by
  have hword : Config.maxDimension < UInt32.size := by decide
  exact ⟨UInt32.toNat_ofNat_of_lt' (Nat.lt_of_le_of_lt h.sound.narrow hword),
    UInt32.toNat_ofNat_of_lt' (Nat.lt_of_le_of_lt h.sound.short hword)⟩

theorem Rested.matched_reset (hw : v.NewLike seed w) :
    Matched Chunks.Twin (v.reset seed) w := by
  obtain ⟨w₀, bindings, hcreate, rfl, hhandlers⟩ := hw
  obtain ⟨-, rfl⟩ := create_eq_ok_iff.mp hcreate
  obtain ⟨_, hbind⟩ := (opened (v.settings seed) v.book).bindAll_eq bindings
  obtain ⟨hwidth, hheight⟩ := h.settings_size seed
  rw [hbind] at hhandlers ⊢
  have hold := Chunks.twin_settled v.scene.chunks
  rw [h.sound.width, h.sound.height] at hold
  refine ⟨rfl, hhandlers, rfl, rfl, ⟨?_, rfl, rfl, Random.nonzero_ne_zero _, hold.symm.trans ?_⟩⟩
  · change Grid.blank _ _ = Grid.blank _ _
    rw [hwidth, hheight]
    rfl
  · change Chunks.Twin _ (Chunks.setSleepingEnabled (.ofSize _ _) v.scene.chunks.sleepingEnabled)
    rw [hwidth, hheight]
    exact Chunks.twin_setSleepingEnabled v.width v.height _

theorem Ready.exists_newLike (hready : v.Ready b) (hv : Reached b v) : ∃ w, v.NewLike seed w := by
  obtain ⟨bindings, hall⟩ := hv.exists_bindings
  obtain ⟨hwidth, hheight⟩ := h.settings_size seed
  have hcheck : (v.settings seed).check = none := by
    have hwide : (v.settings seed).width ≠ 0 := by
      intro hzero
      rw [hzero] at hwidth
      exact hready.cells.wide.ne hwidth
    have htall : (v.settings seed).height ≠ 0 := by
      intro hzero
      rw [hzero] at hheight
      exact hready.cells.tall.ne hheight
    have hnarrow : ¬ Config.maxDimension < v.width := Nat.not_lt.mpr h.sound.narrow
    have hshort : ¬ Config.maxDimension < v.height := Nat.not_lt.mpr h.sound.short
    simp only [Config.check, hwidth, hheight, hwide, htall, hnarrow, hshort, or_self, if_false]
  exact ⟨_, _, bindings, create_eq_ok_iff.mpr ⟨hcheck, rfl⟩, rfl, hall _ h.book rfl⟩

end

/-- After a save with all its fields, nothing tells what was before it; and after a reset nothing
tells a world from a new one. -/
theorem load_and_reset_erase_history {c : Catalog} (hb : RuleBook.compile c = .ok b)
    (hv : Reached b v) :
    (∀ w, Reached b w → w.handlers = v.handlers →
      w.scene.chunks.sleepingEnabled = v.scene.chunks.sleepingEnabled →
        ∀ bytes s v', Snapshot.decode bytes = .ok s → s.version = Snapshot.currentVersion →
          v.load bytes = .ok v' → ∃ w', w.load bytes = .ok w' ∧
            ∀ requests, w'.answers requests = v'.answers requests) ∧
    ∀ seed, (∃ w, v.NewLike seed w) ∧ ∀ w, v.NewLike seed w →
      ∀ requests, w.answers requests = (v.reset seed).answers requests := by
  have hreads := RuleBook.reads_of_compile hb
  constructor
  · intro w hw hhandlers hsleeping bytes s v' hdecode hversion hload
    obtain ⟨rng, step, seed, -, -, hseed⟩ := (Snapshot.decode_laid hdecode).fields hversion
    have hbook : w.book = v.book := hw.rested.book.trans hv.rested.book.symm
    obtain ⟨haccepted, rfl⟩ := accepted_of_load hdecode hload
    have hload' : w.load bytes = .ok (w.restore s) := by
      rw [load_eq, hbook, haccepted]
      rfl
    -- the save has a seed, so neither world keeps its own
    have hmatched := matched_restore hbook hhandlers hsleeping s (by rw [hseed]; rfl)
    exact ⟨_, hload', hmatched.answers (hv.load hload) (hw.load hload')⟩
  · intro seed
    refine ⟨(hv.ready hreads).exists_newLike hv.rested seed hv, fun w hw requests => ?_⟩
    exact (hv.rested.matched_reset seed hw).answers (hv.obey (.reset seed))
      (hw.reached hv.rested.book) requests

/-- A row and a room take the same save, for which the row keeps its buffers and the room does not;
and the row is reset. -/
theorem load_and_reset_erase_history_row :
    ∃ b v w, RuleBook.compile Catalog.fortress = .ok b ∧ Reached b v ∧ Reached b w ∧
      v.width ≠ w.width ∧ ∃ bytes v' w' n, v.load bytes = .ok v' ∧ w.load bytes = .ok w' ∧
        v.NewLike 3 n ∧ ∀ requests, w'.answers requests = v'.answers requests ∧
          n.answers requests = (v.reset 3).answers requests := by
  obtain ⟨b, hb⟩ := Catalog.compile_fortress
  have hreads := RuleBook.reads_of_compile hb
  obtain ⟨v, w, hv, hw, hhandlers, hvs, hws, hwidth⟩ := exists_row_and_room hreads true
  have hdecode := @Snapshot.decode_encode 4 1 5 9 7 [1, 2, 0, 3] (by decide) (by decide) (by decide)
    (by decide) rfl
  have haccepted := accepted_eq_ok_iff.mpr ⟨hdecode, show ∀ id ∈ [1, 2, 0, 3], b.isKnown id by
    simp only [hreads.known]
    decide +kernel⟩
  have hload := v.load_eq (Snapshot.encode 4 1 5 9 7 [1, 2, 0, 3])
  rw [hv.rested.book, haccepted] at hload
  obtain ⟨hloads, hresets⟩ := load_and_reset_erase_history hb hv
  obtain ⟨w', hload', hsame⟩ :=
    hloads w hw hhandlers (hws.trans hvs.symm) _ _ _ hdecode rfl hload
  obtain ⟨⟨n, hn⟩, hnew⟩ := hresets 3
  exact ⟨b, v, w, hb, hv, hw, hwidth, _, _, w', n, hload, hload', hn,
    fun requests => ⟨hsame requests, hnew n hn requests⟩⟩

end World

end Sandfall
