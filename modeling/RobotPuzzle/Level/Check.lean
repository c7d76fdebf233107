import RobotPuzzle.Level.Config

/-!
# Checking level configurations

A configuration makes a level if its board has a positive size, a budget of at least one step,
walls and hazards that fit on the board, and a robot and a crystal in cells without a wall. Of
several problems the first in this order is reported.

## Main definitions

* `ConfigError`, `ConfigError.message` — what is wrong with a configuration
* `Config.problem?` — the first problem of a configuration
-/

namespace RobotPuzzle

/-- What a configuration places on the board. -/
inductive Placed | wallCorner | hazard | robot | crystal
  deriving DecidableEq, Repr

/-- The name of what is placed, in messages. -/
def Placed.title : Placed → String
  | wallCorner => "obstacle corner"
  | hazard => "hazard"
  | robot => "actor"
  | crystal => "objective"

/-- What is wrong with a configuration. -/
inductive ConfigError
  | emptyGrid (size : Int)
  | zeroBudget
  | outside (what : Placed) (c : Cell) (size : Int)
  | invertedWall (r : Rect)
  | walledIn (what : Placed) (c : Cell)
  deriving DecidableEq, Repr

/-- The problem in words. -/
def ConfigError.message : ConfigError → String
  | emptyGrid size => s!"grid size must be positive, got {size}"
  | zeroBudget => "instruction budget must be at least 1"
  | outside what c size => s!"{what.title} at {c.text} is outside the {size}x{size} grid"
  | invertedWall r => s!"obstacle {r.text} is inverted"
  | walledIn what c => s!"{what.title} at {c.text} is inside a wall"

namespace Config

/-- The problem that a cell is not on the board. -/
def outside? (c : Config) (what : Placed) (cell : Cell) : Option ConfigError :=
  if (Grid.empty c.gridSize).Contains cell then none else some (.outside what cell c.gridSize)

/-- The problem that a wall is inverted or has a corner off the board. -/
def wallProblem? (c : Config) (r : Rect) : Option ConfigError :=
  if r.Inverted then some (.invertedWall r)
  else c.outside? .wallCorner r.least <|> c.outside? .wallCorner r.greatest

/-- The problem that a cell lies within a wall. -/
def walledIn? (c : Config) (what : Placed) (cell : Cell) : Option ConfigError :=
  if ∃ r ∈ c.walls, r.Contains cell then some (.walledIn what cell) else none

/-- The first problem of a configuration. -/
def problem? (c : Config) : Option ConfigError :=
  (if c.gridSize ≤ 0 then some (.emptyGrid c.gridSize) else none)
  <|> (if c.budget = 0 then some .zeroBudget else none)
  <|> c.walls.findSome? c.wallProblem?
  <|> c.hazards.findSome? (fun h => c.outside? .hazard h.cell)
  <|> c.outside? .robot c.start.cell
  <|> c.outside? .crystal c.crystal
  <|> c.walledIn? .robot c.start.cell
  <|> c.walledIn? .crystal c.crystal

end Config

end RobotPuzzle
