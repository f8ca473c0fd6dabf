import Sandfall.Catalog.Builtin
import Sandfall.Catalog.Bundle
import Sandfall.RuleBook.Compile
import Sandfall.World.Step
import Sandfall.World.Persistence

/-!
A sandbox is a world ready to play with: built-in or bundled materials, and taps that drip water
where there is water.
-/

namespace Sandfall

inductive SetupError where
  | catalog (e : CatalogError)
  | compile (e : CompileError)
  | config (e : ConfigError)

namespace Sandbox

/-- How often a tap drips. -/
def tapRate : Binary32 := .half

def openTaps (w : World) : World :=
  match w.book.catalog.idByName "water" with
  | some water => w.bind "tap" (.emitter water tapRate)
  | none => w

def build (c : Catalog) (config : Config) : Except SetupError World :=
  match RuleBook.compile c with
  | .error e => .error (.compile e)
  | .ok book =>
    match World.create config book with
    | .error e => .error (.config e)
    | .ok w => .ok w

def catalogOf (bundle : Option String) : Except CatalogError Catalog :=
  match bundle with
  | none => .ok .builtin
  | some s => Catalog.ofBundleText s

def create (width height seed : UInt32) (bundle : Option String) : Except SetupError World :=
  match catalogOf bundle with
  | .error e => .error (.catalog e)
  | .ok c => (build c { width, height, seed }).map openTaps

end Sandbox

end Sandfall
