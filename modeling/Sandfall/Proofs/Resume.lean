import Sandfall.Proofs.Bonds
import Sandfall.Proofs.Codec
import Sandfall.Proofs.Immobile

/-! Going on from a save. The grid of a world always has cells and holds known materials, its word is
never zero, and without sleep all its chunks are active. So its save is accepted by any world of the
same book, and if neither sleeps the two then go on alike. -/

namespace Sandfall

namespace Chunks

/-- The property lasts through all that a tick does to a map. -/
structure Kept (A : Chunks → Prop) : Prop where
  stamps : ∀ {c}, A c → ∀ s, A { c with stamps := s }
  touch : ∀ {c}, A c → ∀ i, A (c.touch i)
  wakeAll : ∀ {c}, A c → A c.wakeAll
  beginTick : ∀ {c}, A c → A c.beginTick
  update : ∀ {c}, A c → ∀ g keepsAwake, A (c.updateActivity g keepsAwake)

/-- A bond may also carry a property of the first map. -/
theorem Bond.also {K : Chunks → Chunks → Prop} {A : Chunks → Prop} (hK : Bond K) (hA : Kept A) :
    Bond fun c d => K c d ∧ A c where
  width h := hK.width h.1
  height h := hK.height h.1
  active h := hK.active h.1
  stamps h s s' := ⟨hK.stamps h.1 s s', hA.stamps h.2 s⟩
  touch h i := ⟨hK.touch h.1 i, hA.touch h.2 i⟩
  wakeAll h := ⟨hK.wakeAll h.1, hA.wakeAll h.2⟩
  beginTick h := ⟨hK.beginTick h.1, hA.beginTick h.2⟩
  update h g keepsAwake := ⟨hK.update h.1 g keepsAwake, hA.update h.2 g keepsAwake⟩

/-- Without sleep the map is awake. -/
def Alert (c : Chunks) : Prop := c.sleepingEnabled = false → c.Awake

theorem alert_wakeAll (c : Chunks) : c.wakeAll.Alert := fun h =>
  awake_wakeAll ((sleepingEnabled_wakeAll c).symm.trans h)

theorem alert_setSleepingEnabled (c : Chunks) (enabled : Bool) :
    (c.setSleepingEnabled enabled).Alert := by
  cases enabled with
  | true => exact fun hdisabled => Bool.noConfusion hdisabled
  | false => exact alert_wakeAll _

theorem kept_alert : Kept Alert where
  stamps h _ hdisabled := ⟨hdisabled, (h hdisabled).active⟩
  touch h i hdisabled := (h ((sleepingEnabled_wake _ i).symm.trans hdisabled)).touch i
  wakeAll _ := alert_wakeAll _
  beginTick h hdisabled := ⟨hdisabled, (h hdisabled).active⟩
  update h g keepsAwake hdisabled := by
    have hbefore := (sleepingEnabled_updateActivity _ g keepsAwake).symm.trans hdisabled
    exact (h hbefore).updateActivity g keepsAwake

theorem Kept.wakeDisc {A : Chunks → Prop} (hA : Kept A) {c : Chunks} (h : A c)
    (cx cy radius : Int32) : A (c.wakeDisc cx cy radius) :=
  ((bond_twin.also hA).wakeDisc ⟨.refl c, h⟩ cx cy radius).2

end Chunks

namespace Grid

/-- The grid has cells, and the book knows what they hold. -/
structure Known (b : RuleBook) (g : Grid) : Prop where
  wide : 0 < g.width
  tall : 0 < g.height
  cells : ∀ i < g.size, b.isKnown (g.cell i) = true

variable {b : RuleBook} {g : Grid} {i j : Nat} {id : MaterialId}

theorem Known.set (h : g.Known b) (i : Nat) (hid : b.isKnown id = true) : (g.set i id).Known b where
  wide := h.wide
  tall := h.tall
  cells := by
    intro k hk
    by_cases hik : i = k
    · subst hik
      have hin : i < g.size := hk
      rw [cell_set_self hin]
      exact hid
    · rw [cell_set_of_ne g hik]
      exact h.cells k hk

theorem Known.exchange (h : g.Known b) (hi : i < g.size) (hj : j < g.size) :
    (g.exchange i j).Known b :=
  (h.set j (h.cells i hi)).set i (h.cells j hj)

theorem Known.paint (h : g.Known b) (places : List (Nat × Nat)) (hid : b.isKnown id = true) :
    (places.foldl (fun g (x, y) => g.set (g.index x y) id) g).Known b := by
  induction places generalizing g with
  | nil => exact h
  | cons place places ih => exact ih (h.set _ hid)

theorem cell_blank {width height : Nat} (hi : i < width * height) :
    (blank width height).cell i = MaterialId.empty :=
  congrArg (·.getD MaterialId.outside) (Vector.getElem?_replicate.trans (if_pos hi))

theorem known_blank {width height : Nat} (hw : 0 < width) (hh : 0 < height)
    (hempty : b.isKnown MaterialId.empty = true) : (blank width height).Known b where
  wide := hw
  tall := hh
  cells := by
    intro i hi
    have hcell : (blank width height).cell i = MaterialId.empty := cell_blank hi
    rw [hcell]
    exact hempty

theorem cell_ofList {width height : Nat} {cells : List MaterialId} (hi : i < width * height)
    (hin : i < cells.length) : (ofList width height cells).cell i = cells[i] := by
  have hget : (Vector.ofFn fun k : Fin (width * height) =>
      cells.toArray.getD k.val MaterialId.empty)[i]? = some cells[i] := by
    rw [Vector.getElem?_ofFn, dif_pos hi]
    simp [hin]
  exact congrArg (·.getD MaterialId.outside) hget

theorem known_ofList {width height : Nat} {cells : List MaterialId} (hw : 0 < width)
    (hh : 0 < height) (hlength : cells.length = width * height)
    (hcells : ∀ id ∈ cells, b.isKnown id = true) : (ofList width height cells).Known b where
  wide := hw
  tall := hh
  cells := by
    intro i hi
    have hlt : i < width * height := hi
    have hin : i < cells.length := hlength.symm ▸ hlt
    rw [cell_ofList hlt hin]
    exact hcells _ (List.getElem_mem hin)

theorem ofList_toList (g : Grid) : ofList g.width g.height g.toList = g := by
  obtain ⟨width, height, cells⟩ := g
  simp only [ofList, toList, mk.injEq, heq_eq_eq, true_and]
  ext i hi
  simp

theorem Known.forall_mem (h : g.Known b) {id : MaterialId} (hid : id ∈ g.toList) :
    b.isKnown id = true := by
  obtain ⟨i, hi, rfl⟩ := List.getElem_of_mem hid
  rw [getElem_toList]
  exact h.cells i (length_toList g ▸ hi)

end Grid

def Write.Known (b : RuleBook) : Write → Prop
  | .set _ id => b.isKnown id = true
  | .exchange .. => True

theorem RuleBook.Reads.maintains_known {b : RuleBook} {c : Catalog} (hb : b.Reads c)
    (hs : Handlers) : b.Maintains hs (Grid.Known b) (Write.Known b) where
  rewrite := by
    intro pass s a r r' i id _ hcells _ hr hd
    have hknown : b.isKnown id = true := by
      have hwf := hb.wellFormed hr
      cases hd with
      | candidate _ hsends => exact (hwf.of_sends hsends).2.1 id rfl
      | actor hsends => exact (hwf.of_sends hsends).1 id rfl
    exact ⟨fun _ => hcells.set i hknown, fun _ => hknown⟩
  move := by
    intro pass s a r r' source target _ hcells ha _ hd
    obtain ⟨hsource, htarget⟩ := Scene.names_of_byRule ha hd
    exact ⟨hcells.exchange hsource htarget, trivial⟩
  place := fun hcells _ _ hknown _ => hcells.set _ hknown
  landed := fun hcells hknown _ => hcells.set _ hknown
  exchanged := fun hcells _ hsource htarget => hcells.exchange hsource htarget

theorem Config.positive_of_check {config : Config} (h : config.check = none) :
    0 < config.width.toNat ∧ 0 < config.height.toNat := by
  unfold check at h
  split_ifs at h with hrange
  push Not at hrange
  exact ⟨Nat.pos_of_ne_zero fun hw => hrange.1 (UInt32.toNat_inj.mp hw),
    Nat.pos_of_ne_zero fun hh => hrange.2.1 (UInt32.toNat_inj.mp hh)⟩

namespace World

variable {b : RuleBook} {v w : World}

theorem firstUnknown?_eq_none {cells : List MaterialId} :
    firstUnknown? b cells = none ↔ ∀ id ∈ cells, b.isKnown id = true := by
  simp only [firstUnknown?, Option.map_eq_none_iff, List.find?_eq_none]
  constructor
  · intro h id hid
    obtain ⟨i, hi, rfl⟩ := List.getElem_of_mem hid
    have hmem : (cells[i], i) ∈ cells.zipIdx :=
      List.mk_mem_zipIdx_iff_getElem?.mpr (List.getElem?_eq_getElem hi)
    simpa using h _ hmem
  · rintro h ⟨id, i⟩ hmem
    have hid := List.mem_of_getElem? (List.mk_mem_zipIdx_iff_getElem?.mp hmem)
    simpa using h id hid

/-- What a save holds, if a world of the book takes it. -/
def accepted (b : RuleBook) (bytes : List UInt8) : Except SaveError Snapshot :=
  match Snapshot.decode bytes with
  | .error e => .error e
  | .ok s =>
    match firstUnknown? b s.cells with
    | some e => .error e
    | none => .ok s

theorem accepted_eq_ok_iff {bytes : List UInt8} {s : Snapshot} : accepted b bytes = .ok s ↔
    Snapshot.decode bytes = .ok s ∧ ∀ id ∈ s.cells, b.isKnown id = true := by
  rw [← firstUnknown?_eq_none, accepted]
  cases Snapshot.decode bytes with
  | error e => simp
  | ok t =>
    cases hunknown : firstUnknown? b t.cells with
    | some e =>
      simp only [hunknown, reduceCtorEq, Except.ok.injEq, false_iff, not_and]
      rintro rfl
      simp [hunknown]
    | none =>
      simp only [hunknown, Except.ok.injEq, iff_self_and]
      rintro rfl
      exact hunknown

theorem load_eq (w : World) (bytes : List UInt8) :
    w.load bytes = (accepted w.book bytes).map w.restore := by
  unfold load accepted
  rw [loadHere_run]
  cases Snapshot.decode bytes with
  | error e => rfl
  | ok s => cases h : firstUnknown? w.book s.cells <;> simp only [h] <;> rfl

/-- A save that is loaded is accepted as it is read. -/
theorem accepted_of_load {bytes : List UInt8} {s : Snapshot} (hs : Snapshot.decode bytes = .ok s)
    (h : w.load bytes = .ok v) : accepted w.book bytes = .ok s ∧ v = w.restore s := by
  rw [load_eq] at h
  cases hsave : accepted w.book bytes with
  | error e =>
    rw [hsave] at h
    cases h
  | ok t =>
    obtain rfl : t = s := Except.ok.inj ((accepted_eq_ok_iff.mp hsave).1.symm.trans hs)
    rw [hsave] at h
    exact ⟨rfl, (Except.ok.inj h).symm⟩

/-- What lasts in every world of a book: its cells are known, its word is not zero, and it is awake
if it does not sleep. -/
structure Ready (b : RuleBook) (w : World) : Prop where
  cells : w.scene.grid.Known b
  live : w.scene.random.state ≠ 0
  alert : w.scene.chunks.Alert

section

variable {c : Catalog} (hb : b.Reads c)
include hb

theorem known_empty : b.isKnown MaterialId.empty = true := by
  rw [hb.known]
  rfl

theorem Ready.step (h : w.Ready b) (hrested : w.Rested b) : w.step.Ready b := by
  have hupholds := hrested.upholds h.cells (Write.Known b)
  have hbond := Chunks.bond_twin.also Chunks.kept_alert
  -- a scene matches itself, and the bond carries along that its map is awake
  have hself : w.scene.Matched (fun c d => c.Twin d ∧ c.Alert) w.scene :=
    ⟨rfl, rfl, rfl, h.live, .refl _, h.alert⟩
  have htick := hself.tick hbond hrested.sound hrested.sound b w.handlers
  rw [← hrested.step_scene] at htick
  refine ⟨?_, htick.live, htick.chunks.2⟩
  rw [hrested.step_scene]
  exact (hupholds.worldTick (hb.maintains_known w.handlers)).cells

theorem Ready.obey (h : w.Ready b) (hrested : w.Rested b) (command : Command) :
    (w.obey command).Ready b := by
  have hbook := hrested.book
  cases command with
  | set x y id =>
    simp only [World.obey, World.set, Scene.place]
    split_ifs with hin
    · rw [Bool.and_eq_true, hbook] at hin
      exact ⟨h.cells.set _ hin.2, h.live, Chunks.kept_alert.touch h.alert _⟩
    · exact h
  | fillDisc cx cy radius id =>
    simp only [World.obey, World.fillDisc]
    by_cases hno : (radius < 0 || !w.book.isKnown id) = true
    · rw [if_pos hno]
      exact h
    · have hknown : b.isKnown id = true := by
        simp only [hbook, Bool.or_eq_true, not_or, Bool.not_eq_true, Bool.not_eq_false'] at hno
        exact hno.2
      rw [if_neg hno]
      split_ifs
      · exact ⟨h.cells.paint _ hknown, h.live, h.alert⟩
      · exact ⟨h.cells.paint _ hknown, h.live, Chunks.kept_alert.wakeDisc h.alert _ _ _⟩
  | clear =>
    exact ⟨Grid.known_blank h.cells.wide h.cells.tall (known_empty hb), h.live,
      Chunks.alert_wakeAll _⟩
  | step => exact h.step hb hrested
  | load bytes =>
    simp only [World.obey, afterLoad_eq, load_eq, hbook]
    cases hsave : accepted b bytes with
    | error e => exact h
    | ok s =>
      obtain ⟨hs, hknown⟩ := accepted_eq_ok_iff.mp hsave
      obtain ⟨hw, hh⟩ := (Snapshot.decode_laid hs).positive
      exact ⟨Grid.known_ofList hw hh (Snapshot.decode_sized hs).cells hknown,
        Random.nonzero_ne_zero _, Chunks.alert_wakeAll _⟩
  | reset seed =>
    exact ⟨Grid.known_blank h.cells.wide h.cells.tall (known_empty hb), Random.nonzero_ne_zero _,
      Chunks.alert_wakeAll _⟩
  | setSleeping enabled =>
    exact ⟨h.cells, h.live, Chunks.alert_setSleepingEnabled _ enabled⟩
  | enablePerf enabled => exact ⟨h.cells, h.live, h.alert⟩
  | enableTrace enabled => exact ⟨h.cells, h.live, h.alert⟩
  | bind key handler => exact ⟨h.cells, h.live, h.alert⟩
  | collectDirty =>
    exact ⟨h.cells, h.live, fun hdisabled => ⟨hdisabled, (h.alert hdisabled).active⟩⟩

theorem Reached.ready (h : Reached b w) : w.Ready b := by
  induction h with
  | create hcreate =>
    obtain ⟨hcheck, rfl⟩ := create_eq_ok_iff.mp hcreate
    obtain ⟨hw, hh⟩ := Config.positive_of_check hcheck
    exact ⟨Grid.known_blank hw hh (known_empty hb), Random.nonzero_ne_zero _,
      Chunks.alert_setSleepingEnabled _ _⟩
  | obey command hreached ih => exact ih.obey hb hreached.rested command

end

theorem Ready.decode_save (h : w.Ready b) (hrested : w.Rested b) : Snapshot.decode w.save = .ok
    ⟨4, w.width, w.height, some w.scene.random.state, some w.steps, some w.seed,
      w.scene.grid.toList⟩ :=
  Snapshot.decode_encode h.cells.wide h.cells.tall hrested.sound.narrow hrested.sound.short
    (Grid.length_toList _)

/-- What a save is loaded into takes over cells, word and clock. -/
theorem Ready.load_save (h : v.Ready b) (hv : v.Rested b) (hw : w.Rested b)
    (hhandlers : w.handlers = v.handlers) (hvs : v.scene.chunks.sleepingEnabled = false)
    (hws : w.scene.chunks.sleepingEnabled = false) :
    ∃ w', w.load v.save = .ok w' ∧ Matched Chunks.BothAwake v w' := by
  have hsave := accepted_eq_ok_iff.mpr ⟨h.decode_save hv, fun id hid => h.cells.forall_mem hid⟩
  refine ⟨_, by rw [load_eq, hw.book, hsave]; rfl, ?_⟩
  obtain ⟨hwidth, hheight, hdisabled⟩ := fitChunks_size w.scene.chunks v.width v.height
  have hrandom : Random.ofSeed v.scene.random.state = v.scene.random := by
    rw [Random.ofSeed, Random.nonzero, if_neg h.live]
  have hwoken : Chunks.Awake
      (fitChunks w.scene.chunks v.width v.height).clearStamps.resetChecksums.wakeAll :=
    Chunks.awake_wakeAll (hdisabled.trans hws)
  refine ⟨hw.book.trans hv.book.symm, hhandlers, rfl, rfl, ⟨Grid.ofList_toList _,
    hv.pending.symm, hrandom, h.live, h.alert hvs, hwoken, ?_, ?_⟩⟩
  · exact (Chunks.sameStamps_wakeAll _).width.trans (hwidth.trans hv.sound.width.symm)
  · exact (Chunks.sameStamps_wakeAll _).height.trans (hheight.trans hv.sound.height.symm)

theorem Reached.load (h : Reached b w) {bytes : List UInt8} {w' : World}
    (hload : w.load bytes = .ok w') : Reached b w' := by
  have hobey := h.obey (.load bytes)
  simpa only [World.obey, afterLoad_eq, hload] using hobey

/-- A row of brutes and a thief, and a larger room with a wall. -/
theorem exists_row_and_room (hb : b.Reads Catalog.fortress) (sleeping : Bool) :
    ∃ v w, Reached b v ∧ Reached b w ∧ w.handlers = v.handlers ∧
      v.scene.chunks.sleepingEnabled = sleeping ∧ w.scene.chunks.sleepingEnabled = sleeping ∧
        v.width ≠ w.width := by
  have hrow : ({ width := 4, height := 1, chunkSleeping := sleeping } : Config).check = none := rfl
  have hroom : ({ width := 5, height := 3, chunkSleeping := sleeping } : Config).check = none := rfl
  obtain ⟨v, hv, hvnone, hvscene⟩ := @exists_painted b _ hrow [(0, 2), (2, 3), (3, 2)] <| by
    simp only [hb.known]
    decide +kernel
  obtain ⟨w, hw, hwnone, hwscene⟩ := @exists_painted b _ hroom [(7, 1)] <| by
    simp only [hb.known]
    decide +kernel
  refine ⟨v, w, hv, hw, hwnone.trans hvnone.symm, ?_, ?_, ?_⟩
  · rw [hvscene]
    cases sleeping <;> decide +kernel
  · rw [hwscene]
    cases sleeping <;> decide +kernel
  · rw [width, width, hvscene, hwscene]
    cases sleeping <;> decide +kernel

/-- To save a world, load the save into another world of the same book and go on there is to go on
in the first one, as long as neither puts chunks to sleep: their saves stay the same. -/
theorem resume_equals_going_on {c : Catalog} (hb : RuleBook.compile c = .ok b) (hv : Reached b v)
    (hw : Reached b w) (hhandlers : w.handlers = v.handlers)
    (hvs : v.scene.chunks.sleepingEnabled = false) (hws : w.scene.chunks.sleepingEnabled = false) :
    ∃ w', w.load v.save = .ok w' ∧ ∀ commands : List Command,
      (∀ command ∈ commands, command.plays = true) →
        (commands.foldl obey w').save = (commands.foldl obey v).save := by
  have hreads := RuleBook.reads_of_compile hb
  obtain ⟨w', hload, hmatched⟩ :=
    (hv.ready hreads).load_save hv.rested hw.rested hhandlers hvs hws
  refine ⟨w', hload, fun commands hplay => ?_⟩
  exact (hmatched.obeyAll Chunks.bond_bothAwake hv (hw.load hload) hplay).save

/-- Brutes and a thief, saved from a row and going on in a larger world that held a wall. -/
theorem resume_equals_going_on_row :
    ∃ b v w, RuleBook.compile Catalog.fortress = .ok b ∧ Reached b v ∧ Reached b w ∧
      v.width ≠ w.width ∧ ∃ w', w.load v.save = .ok w' ∧
        ([.step, .step, .set 1 0 3, .step].foldl obey w').save
          = ([.step, .step, .set 1 0 3, .step].foldl obey v).save := by
  obtain ⟨b, hb⟩ := Catalog.compile_fortress
  obtain ⟨v, w, hv, hw, hhandlers, hvs, hws, hwidth⟩ :=
    exists_row_and_room (RuleBook.reads_of_compile hb) false
  obtain ⟨w', hload, hgo⟩ := resume_equals_going_on hb hv hw hhandlers hvs hws
  exact ⟨b, v, w, hb, hv, hw, hwidth, w', hload, hgo _ (by decide)⟩

end World

end Sandfall
