import RobotPuzzle.World

/-!
# Events

What a run reports: one event for each step, and an outcome at its end.

## Main definitions

* `Event` — what a step did
* `Fault`, `Outcome` — how a run ended
* `Event.report` — an event as it is traced on the command line
-/

namespace RobotPuzzle

/-- What a step did. The last six tell of the cell the robot stands in. -/
inductive Event
  | moved (source target : Cell) (onFire : Bool)
  | bumped (stays wall : Cell)
  | turned (facing : Facing)
  | collected (c : Cell)
  | collectMissed (c : Cell)
  | extinguished (c : Cell)
  | extinguishMissed (c : Cell)
  | covered (c : Cell)
  | coverMissed (c : Cell)
  deriving DecidableEq, Repr

/-- What is wrong with a world or a budget, and never the player's doing. -/
inductive Fault
  | offGrid (c : Cell)
  | budgetOverrun (budget : Nat)
  deriving DecidableEq, Repr

/-- How a run ended. -/
inductive Outcome
  | completed
  | cancelled
  | failed (fault : Fault)
  deriving DecidableEq, Repr

/-- The fault in words. -/
def Fault.message : Fault → String
  | offGrid c => s!"actor is outside the grid at {c.text}"
  | budgetOverrun budget => s!"program ran past its instruction budget of {budget}"

/-- An event as it is traced on the command line. -/
def Event.report : Event → String
  | moved _ target true => s!"moved to {target.text} (on fire!)"
  | moved _ target false => s!"moved to {target.text}"
  | bumped _ wall => s!"bumped into {wall.text}"
  | turned facing => s!"now facing {facing.title}"
  | collected c => s!"collected the crystal at {c.text}"
  | collectMissed c => s!"nothing to collect at {c.text}"
  | extinguished c => s!"put out the fire at {c.text}"
  | extinguishMissed c => s!"no fire to put out at {c.text}"
  | covered c => s!"covered the hole at {c.text}"
  | coverMissed c => s!"nothing to cover at {c.text}"

end RobotPuzzle
