import Sandfall.Proofs.Changes
import Sandfall.Proofs.Erase

/-! Counters and the trace are written and never read. So a run that is watched and one that is not
stay twins, wherever watching begins and ends, and all that can be told of their worlds is the
same. -/

namespace Sandfall

/-- The command only turns the counters or the trace on or off. -/
def Command.observes : Command → Bool
  | .enablePerf _ => true
  | .enableTrace _ => true
  | _ => false

/-- What can be told of a world, but for its counters and its trace. -/
structure View where
  save : List UInt8
  cell : Int → Int → MaterialId
  isActive : Nat → Bool
  dirtyRects : List Chunks.Rect
  random : Random
  reply : Command → Answer

namespace World

def view (w : World) : View where
  save := w.save
  cell := w.get
  isActive := w.scene.chunks.isActive
  dirtyRects := w.scene.chunks.dirtyRects
  random := w.scene.random
  reply := w.reply

variable {b : RuleBook} {v w : World}

theorem Matched.view (h : Matched Chunks.Twin v w) (hv : v.Rested b) (hw : w.Rested b) :
    w.view = v.view := by
  have hcell : w.get = v.get := by
    funext x y
    rw [World.get, World.get, h.scene.grid]
  have hactive : w.scene.chunks.isActive = v.scene.chunks.isActive :=
    funext (Chunks.bond_twin.active h.scene.chunks)
  have hrects : w.scene.chunks.dirtyRects = v.scene.chunks.dirtyRects :=
    Answer.rects.inj (h.tell hv hw .collectDirty).1
  have hreply : w.reply = v.reply := funext fun command => (h.tell hv hw command).1
  simp only [World.view, h.save, hcell, hactive, hrects, h.scene.random, hreply]

theorem Matched.observed (h : Matched Chunks.Twin v w) {command : Command}
    (hobserves : command.observes = true) : Matched Chunks.Twin v (w.obey command) := by
  obtain ⟨hbook, hhandlers, hseed, hsteps, hscene⟩ := h
  obtain ⟨hgrid, hpending, hrandom, hlive, htwin⟩ := hscene
  cases command with
  | enablePerf enabled =>
    exact ⟨hbook, hhandlers, hseed, hsteps, ⟨hgrid, hpending, hrandom, hlive, htwin⟩⟩
  | enableTrace enabled =>
    exact ⟨hbook, hhandlers, hseed, hsteps, ⟨hgrid, hpending, hrandom, hlive, htwin⟩⟩
  | _ => cases hobserves

theorem matched_unwatched (hw : w.Rested b) (hlive : w.scene.random.state ≠ 0)
    (commands : List Command) :
    Matched Chunks.Twin (w.obeyAll (commands.filter fun command => !command.observes))
      (w.obeyAll commands) := by
  induction commands using List.reverseRecOn with
  | nil => exact ⟨rfl, rfl, rfl, rfl, ⟨rfl, rfl, rfl, hlive, .refl _⟩⟩
  | append_singleton commands command ih =>
    rw [List.filter_append, obeyAll_concat]
    cases hobserves : command.observes with
    | true =>
      have hnone : [command].filter (fun command => !command.observes) = [] := by
        simp [hobserves]
      rw [hnone, List.append_nil]
      exact ih.observed hobserves
    | false =>
      have hone : [command].filter (fun command => !command.observes) = [command] := by
        simp [hobserves]
      rw [hone, obeyAll_concat]
      exact (ih.tell (hw.obeyAll _) (hw.obeyAll _) command).2

/-- Two runs of a new world that differ only in where the counters and the trace are turned on and
off: at every point before which both have been told the same otherwise, all else that can be told
of the two worlds is the same. -/
theorem observing_does_not_disturb {config : Config} (hw : create config b = .ok w)
    {commands commands' : List Command}
    (hsame : commands.filter (fun command => !command.observes)
      = commands'.filter fun command => !command.observes) :
    (w.obeyAll commands).view = (w.obeyAll commands').view := by
  have hrested := (Reached.create hw).rested
  have hlive : w.scene.random.state ≠ 0 := by
    obtain ⟨-, -, -, -, hscene⟩ := create_eq_ok hw
    rw [hscene]
    exact Random.nonzero_ne_zero _
  have hleft := matched_unwatched hrested hlive commands
  have hright := matched_unwatched hrested hlive commands'
  rw [hsame] at hleft
  have hquiet := hrested.obeyAll (commands'.filter fun command => !command.observes)
  exact (hleft.view hquiet (hrested.obeyAll commands)).trans
    (hright.view hquiet (hrested.obeyAll commands')).symm

/-- A row of a brute and a thief, traced from the first step and counted from the second on, and the
same row of which only the last step is traced. -/
theorem observing_does_not_disturb_row :
    ∃ b w commands commands', RuleBook.compile Catalog.fortress = .ok b ∧
      create { width := 4, height := 1, seed := 7 } b = .ok w ∧
      commands.filter (fun command => !command.observes)
        = commands'.filter (fun command => !command.observes) ∧
      (w.obeyAll commands).perfEnabled = true ∧ (w.obeyAll commands').perfEnabled = false ∧
      (w.obeyAll commands).view = (w.obeyAll commands').view := by
  obtain ⟨b, hb⟩ := Catalog.compile_fortress
  have hw : create { width := 4, height := 1, seed := 7 } b = .ok (opened _ b) :=
    create_eq_ok_iff.mpr ⟨rfl, rfl⟩
  exact ⟨b, _, [.set 0 0 2, .set 1 0 3, .enableTrace true, .step, .enablePerf true, .step],
    [.set 0 0 2, .set 1 0 3, .step, .enableTrace true, .step], hb, hw, rfl, rfl, rfl,
    observing_does_not_disturb hw rfl⟩

end World

end Sandfall
