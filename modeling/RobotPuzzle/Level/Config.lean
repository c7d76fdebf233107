import RobotPuzzle.World

/-!
# Level configurations

A configuration describes a level without promising that it makes sense. Building a world from
it places its walls and hazards one after the other.

## Main definitions

* `Config` — the description of a level
* `Config.grid`, `Config.world` — the board and the world it describes
* `Config.grid?` — the board, if every wall and hazard fits
-/

namespace RobotPuzzle

/-- A hazard to be placed; a fire unless said otherwise. -/
structure HazardSpec where
  cell : Cell
  kind : HazardKind := .fire
  deriving DecidableEq, Repr

/-- The description of a level. -/
structure Config where
  name : String
  gridSize : Int := 10
  budget : Nat
  start : Robot
  crystal : Cell
  walls : List Rect := []
  hazards : List HazardSpec := []
  deriving DecidableEq, Repr

namespace Config

/-- The described board, whether its parts fit or not. -/
def grid (c : Config) : Grid :=
  c.hazards.foldl (fun g h => g.addHazard h.kind h.cell)
    (c.walls.foldl Grid.addWall (.empty c.gridSize))

/-- The described board, or what keeps it from being set up. -/
def grid? (c : Config) : Except SetupError Grid := do
  let g ← Grid.empty? c.gridSize
  let g ← c.walls.foldlM Grid.addWall? g
  c.hazards.foldlM (fun g h => g.addHazard? h.kind h.cell) g

/-- The described world before any run. -/
def world (c : Config) : World :=
  { grid := c.grid, robot := c.start, crystal := { cell := c.crystal }, spawn := c.start }

end Config

end RobotPuzzle
