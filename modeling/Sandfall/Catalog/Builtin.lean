import Sandfall.Catalog

/-!
The default materials: walls, powders, liquids, gases, fire and what reacts with them.
-/

namespace Sandfall.Catalog.Builtin

def wall : MaterialId := 1
def sand : MaterialId := 2
def water : MaterialId := 3
def oil : MaterialId := 4
def fire : MaterialId := 5
def smoke : MaterialId := 6
def steam : MaterialId := 7
def wood : MaterialId := 8
def plant : MaterialId := 9
def lava : MaterialId := 10
def stone : MaterialId := 11
def acid : MaterialId := 12
def gunpowder : MaterialId := 13
def explosion : MaterialId := 14
def lightning : MaterialId := 15
def blackHole : MaterialId := 16
def tap : MaterialId := 17
def metal : MaterialId := 18
def ice : MaterialId := 19

def hundredths (n : Nat) : Binary32 := Binary32.nearest false n 100

def thousandths (n : Nat) : Binary32 := Binary32.nearest false n 1000

def isId (id : MaterialId) : Predicate := .ids [id]

def hasTag (t : Tag) : Predicate := .anyTag [t]

/-- The acting cell becomes `id`. -/
def become (id : MaterialId) (p : Binary32) : Effect := .transform (some id) none p .one

/-- The candidate becomes `id`. -/
def convert (id : MaterialId) (p : Binary32) : Effect := .transform none (some id) .one p

/-- Both become something else. -/
def react (this : MaterialId) (p : Binary32) (other : MaterialId) (q : Binary32) : Effect :=
  .transform (some this) (some other) p q

def swap : Effect := .swap .one

/-- Each predicate picks the effect beside it. -/
def choosing (r : Rule) (cases : List (Predicate × Effect)) : Rule :=
  { r with
    matchers := cases.zipIdx.map fun ((p, _), i) => ⟨p, UInt64.ofNat i⟩
    outcomes := cases.map Prod.snd }

/-- Empty cells and gases give way to anything falling into them. -/
def passable : Predicate := .any [isId MaterialId.empty, hasTag .gas]

def lighterLiquid : Predicate :=
  .all [hasTag .liquid, .compare .density .lt (.own .density)]

/-- A movement tried with the chance of a coefficient; the cell moved into is stamped. -/
def movement (sampler : Sampler) (p : Property) (pass : PassRestriction)
    (cases : List (Predicate × Effect)) : Rule :=
  choosing { sampler, chance := .property p, pass, stamp := true } cases

def fall : Rule :=
  movement (.offsets [(0, 1)]) .gravity .falling
    [(passable, swap), (lighterLiquid, .densitySwap)]

def slide : Rule := movement (.offsets [(-1, 1), (1, 1)]) .gravity .falling [(passable, swap)]

def flow : Rule :=
  movement (.offsets [(-1, 0), (1, 0)]) .liquid .falling [(isId MaterialId.empty, swap)]

def rise : Rule :=
  movement (.offsets [(0, -1), (-1, -1), (1, -1)]) .buoyancy .rising
    [(isId MaterialId.empty, swap)]

def drift : Rule := movement (.radius 1 0) .randomWalk .rising [(isId MaterialId.empty, swap)]

def decay (chance : Binary32) (into : MaterialId) (p : Binary32) : Rule :=
  choosing { sampler := .own, chance := .literal chance } [(.always, become into p)]

/-- A straight probe of `length` rows down, stepping sideways by `dx` once in `every` rows. -/
def ray (dx : Int) (every length : Nat) : List Offset :=
  (List.range length).map fun i =>
    (Int8.ofInt (dx * ((i + every) / every : Nat)), Int8.ofNat (i + 1))

def wallRock : Archetype :=
  { name := "wall", color := 0xFF808080, tags := Tag.mask [.solid], immobile := true }

def sandPowder : Archetype :=
  { name := "sand", color := 0xFF6BC2E6
    movement := { gravity := hundredths 95, density := hundredths 150 }
    tags := Tag.mask [.powder], rules := [fall, slide] }

def waterLiquid : Archetype :=
  { name := "water", color := 0xFFE07A2A
    movement := { gravity := hundredths 95, liquid := hundredths 90, density := hundredths 100 }
    tags := Tag.mask [.liquid], rules := [fall, slide, flow] }

def oilLiquid : Archetype :=
  { name := "oil", color := 0xFF1F3A4A
    movement := { gravity := hundredths 90, liquid := hundredths 70, density := hundredths 80 }
    tags := Tag.mask [.liquid, .flammable], rules := [fall, slide, flow] }

def fireFlame : Archetype :=
  { name := "fire", color := 0xFF2060FF
    movement := { buoyancy := hundredths 60 }
    tags := Tag.mask [.hot]
    rules := [
      choosing { sampler := .radius 1 1, samples := 2, limit := some 2 }
        [(hasTag .flammable, convert fire (hundredths 50)),
          (isId water, react smoke .one steam (hundredths 50)),
          (isId ice, convert water (hundredths 30))],
      decay (hundredths 8) smoke (hundredths 60), rise] }

def smokeGas : Archetype :=
  { name := "smoke", color := 0xFF505050
    movement :=
      { buoyancy := hundredths 40, randomWalk := hundredths 30, density := hundredths 5 }
    tags := Tag.mask [.gas]
    rules := [decay (hundredths 1) MaterialId.empty .one, rise, drift] }

def steamGas : Archetype :=
  { name := "steam", color := 0xFFD0C8C0
    movement :=
      { buoyancy := hundredths 70, randomWalk := hundredths 20, density := hundredths 3 }
    tags := Tag.mask [.gas]
    rules := [decay (thousandths 3) water .one, rise, drift] }

def woodPlank : Archetype :=
  { name := "wood", color := 0xFF214A7A, tags := Tag.mask [.solid, .flammable, .organic]
    immobile := true }

def plantVine : Archetype :=
  { name := "plant", color := 0xFF2EA83A, tags := Tag.mask [.flammable, .organic]
    immobile := true
    rules := [
      choosing { sampler := .radius 1 2, chance := .literal (hundredths 5), limit := some 1 }
        [(isId water, convert plant .one)]] }

def lavaLiquid : Archetype :=
  { name := "lava", color := 0xFF1040E0
    movement := { gravity := hundredths 60, liquid := hundredths 30, density := hundredths 200 }
    tags := Tag.mask [.liquid, .hot]
    rules := [
      choosing { sampler := .offsets [(0, -1), (0, 1), (-1, 0), (1, 0)]
                 chance := .literal (hundredths 50) }
        [(hasTag .flammable, convert fire (hundredths 50)),
          (isId water, react stone (hundredths 50) steam .one),
          (isId ice, convert water (hundredths 50))],
      fall, slide, flow] }

def stonePowder : Archetype :=
  { name := "stone", color := 0xFF606870
    movement := { gravity := hundredths 90, density := hundredths 250 }
    tags := Tag.mask [.powder, .solid]
    rules := [fall, { slide with chance := .literal (hundredths 20) }] }

def acidLiquid : Archetype :=
  { name := "acid", color := 0xFF30F0A0
    movement := { gravity := hundredths 90, liquid := hundredths 80, density := hundredths 110 }
    tags := Tag.mask [.liquid, .corrosive]
    rules := [
      choosing { sampler := .offsets [(0, 1), (-1, 0), (1, 0), (0, -1)]
                 chance := .literal (hundredths 20) }
        [(.all [.anyTag [.solid, .powder, .organic], .not (isId wall)],
          react MaterialId.empty (hundredths 30) MaterialId.empty .one)],
      fall, slide, flow] }

def gunpowderPowder : Archetype :=
  { name := "gunpowder", color := 0xFF303038
    movement := { gravity := hundredths 90, density := hundredths 130 }
    tags := Tag.mask [.powder, .flammable, .explosive]
    rules := [
      choosing { sampler := .radius 1 0, samples := 2 } [(hasTag .hot, become explosion .one)],
      fall, slide] }

/-- Its writes wait for the end of the tick, so what it converts takes no part in the same tick. -/
def explosionBlast : Archetype :=
  { name := "explosion", color := 0xFF00C0FF, tags := Tag.mask [.hot], immobile := true
    rules := [
      choosing { sampler := .annulus 0 3, samples := 12, commit := .endOfTick }
        [(hasTag .explosive, convert explosion .one),
          (isId MaterialId.empty, convert fire (hundredths 30)),
          (.not (.ids [wall, metal, explosion]), convert fire (hundredths 70))],
      choosing { sampler := .own, commit := .endOfTick } [(.always, become fire .one)]] }

def lightningBolt : Archetype :=
  { name := "lightning", color := 0xFFFFFFA0, tags := Tag.mask [.hot]
    rules := [
      decay (hundredths 25) MaterialId.empty .one,
      choosing { sampler := .ordered [ray 0 1 12, ray (-1) 2 6, ray 1 2 6], limit := some 1 }
        [(isId MaterialId.empty, .noop), (hasTag .flammable, convert fire .one),
          (isId water, convert steam .one), (.always, .stop)],
      choosing { sampler := .offsets [(0, 1)], pass := .falling, stamp := true }
        [(.always, .directionSwap 3 (some (isId MaterialId.empty)))]] }

def blackHoleSink : Archetype :=
  { name := "black_hole", color := 0xFF100010, immobile := true
    rules := [
      choosing { sampler := .annulus 1 8, samples := 4, stamp := true }
        [(.not (isId MaterialId.empty), .directionSwap (-1) (some (isId MaterialId.empty)))],
      choosing { sampler := .radius 1 0, chance := .literal (hundredths 30) }
        [(.not (.ids [MaterialId.empty, blackHole]), convert MaterialId.empty .one)]] }

def tapSpout : Archetype :=
  { name := "tap", color := 0xFFC0A060, tags := Tag.mask [.solid], immobile := true
    spawner := true }

def metalBar : Archetype :=
  { name := "metal", color := 0xFFB0B0A8, tags := Tag.mask [.solid, .conductive]
    immobile := true }

def iceBlock : Archetype :=
  { name := "ice", color := 0xFFF0E0B0, tags := Tag.mask [.solid, .cold], immobile := true
    rules := [
      choosing { sampler := .radius 1 0, chance := .literal (hundredths 10) }
        [(hasTag .hot, become water (hundredths 50))]] }

def materials : List (MaterialId × Archetype) :=
  [(wall, wallRock), (sand, sandPowder), (water, waterLiquid), (oil, oilLiquid),
    (fire, fireFlame), (smoke, smokeGas), (steam, steamGas), (wood, woodPlank),
    (plant, plantVine), (lava, lavaLiquid), (stone, stonePowder), (acid, acidLiquid),
    (gunpowder, gunpowderPowder), (explosion, explosionBlast), (lightning, lightningBolt),
    (blackHole, blackHoleSink), (tap, tapSpout), (metal, metalBar), (ice, iceBlock)]

end Builtin

def builtin : Catalog :=
  Builtin.materials.foldl (fun c (id, a) => c.define id a) empty

end Sandfall.Catalog
