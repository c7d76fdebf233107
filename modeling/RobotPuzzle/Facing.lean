import RobotPuzzle.Cell

/-!
# Facings

The four ways a robot can look. Quarter turns permute them cyclically, and each names a unit
step on the board.

## Main definitions

* `Facing.offset` — the step of one cell ahead
* `Facing.left`, `Facing.right`, `Facing.opposite` — turning
* `Facing.name`, `Facing.title` — the written forms, lower case in files and capitalised in reports
-/

namespace RobotPuzzle

/-- Where the robot looks. -/
inductive Facing | north | east | south | west
  deriving DecidableEq, Repr, Inhabited

namespace Facing

/-- One cell ahead, as columns and rows: east adds to `x` and south adds to `z`. -/
def offset : Facing → Int × Int
  | north => (0, -1)
  | east => (1, 0)
  | south => (0, 1)
  | west => (-1, 0)

/-- A quarter turn to the left. -/
def left : Facing → Facing
  | north => west
  | west => south
  | south => east
  | east => north

/-- A quarter turn to the right. -/
def right : Facing → Facing
  | north => east
  | east => south
  | south => west
  | west => north

/-- Half a turn. -/
def opposite (f : Facing) : Facing := f.left.left

/-- The name of a facing in a level file. -/
def name : Facing → String
  | north => "north"
  | east => "east"
  | south => "south"
  | west => "west"

/-- The name of a facing in a report to the player. -/
def title : Facing → String
  | north => "North"
  | east => "East"
  | south => "South"
  | west => "West"

/-- The facings in the order in which a level file's errors list them. -/
def all : List Facing := [north, east, south, west]

/-- The facing with a given name. -/
def ofName? (s : String) : Option Facing := all.find? (·.name == s)

theorem offset_opposite (f : Facing) : f.opposite.offset = (-f.offset.1, -f.offset.2) := by
  cases f <;> rfl

end Facing

end RobotPuzzle
