import RobotPuzzle.Grid
import RobotPuzzle.Decimal.Shortest

/-!
# Scenes

A renderer sees the board as a square of ground centred on the origin, in single-precision
coordinates. Every cell is a square of the same size, and a point belongs to the cell whose
centre is nearest.

## Main definitions

* `Scene` — a grid together with the size of its cells
* `Scene.centre` — the middle of a cell on the ground
* `Scene.cellAt?` — the cell of a point
* `Facing.yaw` — how far a model at rest, which looks south, is turned
* `SetupError.message` — what the player is told when a scene cannot be set up
-/

namespace RobotPuzzle

/-- A point of the scene; `y` is its height above the ground. -/
structure Point where
  x : Float32
  y : Float32
  z : Float32

/-- A grid whose cells have a size. -/
structure Scene where
  grid : Grid
  cellSize : Float32 := 2.0

namespace Scene

/-- The number of cells along an edge of a board when none is given. -/
def defaultGridSize : Int := 10

/-- The size of a cell when none is given. -/
def defaultCellSize : Float32 := 2.0

/-- The height of the robot's centre above the ground. -/
def robotHeight : Float32 := 1.0

/-- An empty board with cells of a positive size. The board's own size is looked at first. -/
def empty? (size : Int) (cellSize : Float32) : Except SetupError Scene := do
  let grid ← Grid.empty? size
  if 0 < cellSize then pure { grid, cellSize } else throw (.cellSize cellSize)

/-- The coordinate of the western and northern edges. -/
def origin (s : Scene) : Float32 := -(Float32.ofInt s.grid.size) * s.cellSize / 2.0

/-- The middle of a column or row. -/
def axisCentre (s : Scene) (c : Int) : Float32 :=
  s.origin + s.cellSize * (Float32.ofInt c + 0.5)

/-- The column or row whose middle is nearest; of two, the one away from zero. Coordinates
beyond 32 bits become the last one representable, and no number becomes zero. -/
def axisCell (s : Scene) (w : Float32) : Int :=
  ((w - s.origin) / s.cellSize - 0.5).round.toInt32.toInt

/-- The middle of a cell on the ground. -/
def centre (s : Scene) (c : Cell) : Point :=
  { x := s.axisCentre c.x, y := 0.0, z := s.axisCentre c.z }

/-- The cell of a point, if it is on the board. The height does not matter. -/
def cellAt? (s : Scene) (p : Point) : Option Cell :=
  let c : Cell := ⟨s.axisCell p.x, s.axisCell p.z⟩
  if s.grid.Contains c then some c else none

end Scene

/-- The turn of a model about the vertical axis, in degrees. -/
def Facing.yaw : Facing → Float32
  | .south => 0.0
  | .east => 90.0
  | .north => 180.0
  | .west => 270.0

/-- What the player is told when a board cannot be set up. -/
def SetupError.message : SetupError → String
  | emptyGrid size => s!"grid size must be positive, got {size}"
  | cellSize size =>
    "cell size must be positive, got " ++ (BinaryFormat.single.decode size.toBits.toNat).text
  | invertedRect r => s!"inverted obstacle range {r.text}"
  | rectOutside r size => s!"obstacle {r.text} leaves the {size}x{size} grid"
  | hazardOutside c size => s!"hazard {c.text} is outside the {size}x{size} grid"

end RobotPuzzle
