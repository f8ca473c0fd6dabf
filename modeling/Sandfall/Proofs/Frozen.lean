import Sandfall.Proofs.Changes
import Sandfall.Proofs.Plain
import Sandfall.Proofs.Reckon
import Sandfall.Proofs.Resume

/-! Sleeping chunks are frozen. Every write wakes the chunk of its cell and starts its count anew,
so a chunk that sleeps at the end of a tick has not been written to since the tick began: it slept
all along, or it was active and quiet, and then its checksum is that of its cells and none of them
must stay awake. Nothing else puts a chunk to sleep. A disc whose numbers do not fit into words may
paint a cell of a chunk that goes on sleeping. -/

namespace Sandfall

namespace Scene

variable {s t : Scene} {i : Nat}

def contents (s : Scene) (i : Nat) : List MaterialId := s.chunks.contents s.grid i

/-- The stored checksum of the chunk is that of its cells, and none of them must stay awake. -/
structure Frozen (b : RuleBook) (s : Scene) (i : Nat) : Prop where
  sum : s.chunks.checksums[i]? = some (s.chunks.checksum s.grid i)
  quiet : ∀ id ∈ s.contents i, b.keepsAwake id = false

theorem Frozen.of_same {b : RuleBook} (h : s.Frozen b i)
    (hsum : t.chunks.checksums[i]? = s.chunks.checksums[i]?)
    (hcontents : t.contents i = s.contents i) : t.Frozen b i where
  sum := by
    have hchecksum : t.chunks.checksum t.grid i = s.chunks.checksum s.grid i := by
      rw [Chunks.checksum_eq, Chunks.checksum_eq]
      exact congrArg Checksum.ofList hcontents
    rw [hsum, h.sum, hchecksum]
  quiet := by
    rw [hcontents]
    exact h.quiet

end Scene

namespace Chunks

variable {c : Chunks} {i : Nat}

/-- What has changed since a tick began: a chunk that sleeps has slept all along, and one that was
woken has a count of zero. -/
structure Undisturbed (g₀ : Grid) (c₀ : Chunks) (g : Grid) (c : Chunks) : Prop where
  width : c.width = c₀.width
  height : c.height = c₀.height
  asleep : ∀ i < c.count, c.isActive i = false → c₀.isActive i = false ∧
    c.checksums[i]? = c₀.checksums[i]? ∧ c.contents g i = c₀.contents g₀ i
  woken : ∀ i < c.count, c₀.isActive i = false → c.isActive i = true → c.sleep[i]?.getD 0 = 0

theorem Undisturbed.refl (g : Grid) (c : Chunks) : Undisturbed g c g c where
  width := rfl
  height := rfl
  asleep _ _ hidle := ⟨hidle, rfl, rfl⟩
  woken _ _ hidle hactive := by
    rw [hidle] at hactive
    cases hactive

theorem lasts_undisturbed (g₀ : Grid) (c₀ : Chunks) : Scene.Lasts (Undisturbed g₀ c₀) where
  aside h _ _ _ := ⟨h.width, h.height, h.asleep, h.woken⟩
  touch := by
    intro s x y hs hx hy h id
    have hsame : s.chunks.SameStamps (s.chunks.touchCell x y) := sameStamps_touch _ _
    have htouch := s.chunks.touch_eq (s.chunks.ofCell x y)
    refine ⟨hsame.width.trans h.width, hsame.height.trans h.height, ?_, ?_⟩
    · intro i hi hidle
      rw [hsame.count] at hi
      rw [touchCell, isActive_touch, Bool.or_eq_false_iff, decide_eq_false_iff_not] at hidle
      obtain ⟨hother, hidle⟩ := hidle
      -- the chunk written to is active now
      have hne : s.chunks.ofCell x y ≠ i := fun heq => hother ⟨heq, heq ▸ hi⟩
      have hsum : (s.chunks.touchCell x y).checksums[i]? = s.chunks.checksums[i]? := by
        rw [touchCell, htouch]
      rw [hsum, hsame.contents, contents_set (Checked.covers hs) hi hx hne id]
      exact h.asleep i hi hidle
    · intro i hi hslept hactive
      rw [hsame.count] at hi
      rw [touchCell, htouch]
      by_cases hown : s.chunks.ofCell x y = i
      · subst hown
        have hin : s.chunks.ofCell x y < total s.chunks.width s.chunks.height := hi
        simp [hin]
      · rw [touchCell, isActive_touch, decide_eq_false (fun hboth => hown hboth.1),
          Bool.false_or] at hactive
        simp only [Vector.getElem?_setIfInBounds_ne hown]
        exact h.woken i hi hslept hactive

theorem isActive_of_replicate (h : c.active = Vector.replicate _ true) (hi : i < c.count) :
    c.isActive i = true := by
  have hget : (Vector.replicate (total c.width c.height) true)[i]? = some true :=
    Vector.getElem?_replicate.trans (if_pos hi)
  rw [isActive, h, hget, Option.getD_some]

theorem isActive_wakeAll (hi : i < c.wakeAll.count) : c.wakeAll.isActive i = true := by
  obtain ⟨_, hwake⟩ := c.wakeAll_eq
  rw [hwake] at hi ⊢
  exact isActive_of_replicate rfl hi

theorem lasts_alert : Scene.Lasts fun _ c => c.Alert where
  aside h _ _ _ hdisabled := ⟨hdisabled, (h hdisabled).active⟩
  touch _ _ _ h _ := kept_alert.touch h _

end Chunks

namespace Scene

variable {s : Scene} {i : Nat}

/-- A chunk that sleeps after a tick slept before, and nothing in it has changed, or it was active
and quiet. -/
theorem asleep_of_tick (hs : s.Sound) (b : RuleBook) (handlers : Handlers)
    (hi : i < (World.tick b handlers s).chunks.count)
    (hidle : (World.tick b handlers s).chunks.isActive i = false) :
    i < s.chunks.count ∧ ((s.chunks.isActive i = false ∧
        (World.tick b handlers s).chunks.checksums[i]? = s.chunks.checksums[i]? ∧
        (World.tick b handlers s).contents i = s.contents i) ∨
      (s.chunks.isActive i = true ∧ (World.tick b handlers s).Frozen b i)) := by
  obtain ⟨t, ht, hund, htick⟩ := (Chunks.lasts_undisturbed s.grid s.chunks).tick hs b handlers
    (.refl _ _)
  rw [htick] at hi hidle ⊢
  have hsame : t.chunks.SameStamps (World.updateActivity b t).chunks :=
    Chunks.sameStamps_updateActivity _ _ _
  rw [hsame.count] at hi
  have hcontents : (World.updateActivity b t).contents i = t.contents i := hsame.contents _ _
  obtain ⟨hsum, hcase⟩ := Chunks.asleep_of_updateActivity hi hidle
  have hcount : t.chunks.count = s.chunks.count := by
    simp only [Chunks.count, hund.width, hund.height]
  refine ⟨hcount ▸ hi, ?_⟩
  cases hawake : t.chunks.isActive i with
  | false =>
    obtain ⟨hslept, hsame, hheld⟩ := hund.asleep i hi hawake
    exact .inl ⟨hslept, hsum.trans hsame, hcontents.trans hheld⟩
  | true =>
    obtain ⟨hquiet, hlong, hnone⟩ := hcase.resolve_left (by rw [hawake]; decide)
    have hactive : s.chunks.isActive i = true := by
      by_contra hslept
      exact hlong (hund.woken i hi (Bool.eq_false_of_not_eq_true hslept) hawake)
    exact .inr ⟨hactive, Frozen.of_same ⟨hquiet, hnone⟩ hsum hcontents⟩

end Scene

namespace World

variable {b : RuleBook} {w : World} {i : Nat}

theorem Rested.alert (h : w.Rested b) (halert : w.scene.chunks.Alert) (command : Command) :
    (w.obey command).scene.chunks.Alert := by
  by_cases hfits : command.Fits b
  · rcases h.change hfits with ⟨cells, hcells, _, hchunks⟩ | ⟨c, hchunks⟩ | ⟨_, hchunks⟩ |
      ⟨_, hchunks⟩ | htick
    · rw [hchunks]
      exact Chunks.lasts_alert.paint h.sound hcells halert
    · rw [hchunks]
      exact Chunks.alert_wakeAll c
    · rw [hchunks]
      exact fun hdisabled => Bool.noConfusion hdisabled
    · rw [hchunks]
      exact fun hdisabled => ⟨hdisabled, (halert hdisabled).active⟩
    · obtain ⟨t, -, ht, hreckon⟩ := Chunks.lasts_alert.tick h.sound b w.handlers halert
      rw [htick, hreckon]
      exact Chunks.kept_alert.update ht _ _
  · -- a disc wakes chunks, if at all, whichever cells it paints
    cases command with
    | fillDisc cx cy radius id =>
      simp only [World.obey, World.fillDisc]
      split_ifs
      · exact halert
      · exact halert
      · exact Chunks.kept_alert.wakeDisc halert cx cy radius
    | _ => exact absurd trivial hfits

/-- A chunk that sleeps after a command slept before, and nothing in it has changed, or the command
was a step that found it active and quiet. -/
theorem Rested.asleep (h : w.Rested b) {command : Command} (hfits : command.Fits b)
    (hi : i < (w.obey command).scene.chunks.count)
    (hidle : (w.obey command).scene.chunks.isActive i = false) :
    i < w.scene.chunks.count ∧ ((w.scene.chunks.isActive i = false ∧
        (w.obey command).scene.chunks.checksums[i]? = w.scene.chunks.checksums[i]? ∧
        (w.obey command).scene.contents i = w.scene.contents i) ∨
      (command = .step ∧ w.scene.chunks.isActive i = true ∧
        (w.obey command).scene.Frozen b i)) := by
  have hchange := h.change hfits
  generalize (w.obey command).scene = t at hi hidle hchange ⊢
  have hbefore := Chunks.Undisturbed.refl w.scene.grid w.scene.chunks
  have hslept : Chunks.Undisturbed w.scene.grid w.scene.chunks t.grid t.chunks →
      i < w.scene.chunks.count ∧ w.scene.chunks.isActive i = false ∧
        t.chunks.checksums[i]? = w.scene.chunks.checksums[i]? ∧
        t.contents i = w.scene.contents i := by
    intro hund
    have hcount : t.chunks.count = w.scene.chunks.count := by
      simp only [Chunks.count, hund.width, hund.height]
    exact ⟨hcount ▸ hi, hund.asleep i hi hidle⟩
  cases hchange with
  | paint cells hcells hgrid hchunks =>
    refine (hslept ?_).imp_right .inl
    rw [hgrid, hchunks]
    exact (Chunks.lasts_undisturbed _ _).paint h.sound hcells hbefore
  | renew c hchunks =>
    rw [hchunks] at hi hidle
    cases hidle.symm.trans (Chunks.isActive_wakeAll hi)
  | allow hgrid hchunks =>
    refine (hslept ?_).imp_right .inl
    rw [hgrid, hchunks]
    exact ⟨rfl, rfl, hbefore.asleep, hbefore.woken⟩
  | collect hgrid hchunks =>
    refine (hslept ?_).imp_right .inl
    rw [hgrid, hchunks]
    exact ⟨rfl, rfl, hbefore.asleep, hbefore.woken⟩
  | step htick =>
    rw [htick] at hi hidle ⊢
    obtain ⟨hin, hcase⟩ := Scene.asleep_of_tick h.sound b w.handlers hi hidle
    exact ⟨hin, hcase.imp_right fun hfroze => ⟨rfl, hfroze⟩⟩

end World

end Sandfall
