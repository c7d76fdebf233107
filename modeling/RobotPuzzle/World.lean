import RobotPuzzle.Grid

/-!
# Worlds

The state that a run changes: the board with its hazards, the robot, and the crystal it is to
collect. A world also remembers where the robot starts, so that it can be put back.

## Main definitions

* `World` — board, robot, crystal and starting point
* `World.reset` — puts everything back that a run may have changed
* `World.onFire`, `World.Won` — what can be asked of a world
-/

namespace RobotPuzzle

/-- The robot's cell and where it looks. -/
structure Robot where
  cell : Cell
  facing : Facing
  deriving DecidableEq, Repr

/-- The crystal's cell, and whether the robot has collected it. -/
structure Crystal where
  cell : Cell
  collected : Bool := false
  deriving DecidableEq, Repr

/-- The state of a board in play. -/
structure World where
  grid : Grid
  robot : Robot
  crystal : Crystal
  spawn : Robot
  deriving DecidableEq, Repr

namespace World

/-- Puts the robot back to its start, makes every hazard active again and puts the crystal back
into its cell. -/
def reset (w : World) : World :=
  { w with
    grid := w.grid.rearm
    robot := w.spawn
    crystal := { w.crystal with collected := false } }

/-- The robot stands in an active fire. -/
def onFire (w : World) : Bool := w.grid.onFire w.robot.cell

/-- The robot stands in the crystal's cell. -/
def AtCrystal (w : World) : Prop := w.robot.cell = w.crystal.cell

instance (w : World) : Decidable w.AtCrystal :=
  inferInstanceAs (Decidable (w.robot.cell = w.crystal.cell))

/-- The crystal is collected and the robot stands in its cell. -/
def Won (w : World) : Prop := w.AtCrystal ∧ w.crystal.collected = true

instance (w : World) : Decidable w.Won :=
  inferInstanceAs (Decidable (w.AtCrystal ∧ w.crystal.collected = true))

@[simp] theorem reset_reset (w : World) : w.reset.reset = w.reset := by
  simp [reset]

end World

end RobotPuzzle
