import RobotPuzzle.Scene
import RobotPuzzle.Session.Basic

/-!
# What a renderer sees of a session

## Main definitions

* `Snapshot`, `Session.snapshot` — the places of everything that is drawn
* `Session.consoleText` — the console as one text
* `Session.hazardVisible` — whether a cell's hazard is still to be drawn
-/

namespace RobotPuzzle

/-- The places of everything that is drawn, with the yaw of the robot in degrees. -/
structure Snapshot where
  robot : Point
  yaw : Float32
  crystal : Point
  crystalVisible : Bool
  hazards : Hazards

namespace Session

/-- The scene of a session, with cells of the default size. -/
def scene (s : Session) : Scene := { grid := s.world.grid }

/-- The places of everything that is drawn. The robot's is above the ground, and the crystal can
be seen until it is collected. -/
def snapshot (s : Session) : Snapshot where
  robot := { s.scene.centre s.world.robot.cell with y := Scene.robotHeight }
  yaw := s.world.robot.facing.yaw
  crystal := s.scene.centre s.world.crystal.cell
  crystalVisible := !s.world.crystal.collected
  hazards := s.world.grid.hazards

/-- The lines of the console, with line ends between them. -/
def consoleText (s : Session) : String := "\n".intercalate s.console

/-- Whether a cell has a hazard that is still to be drawn. -/
def hazardVisible (s : Session) (c : Cell) : Bool := (s.world.grid.hazardAt? c).any Hazard.active

end Session

end RobotPuzzle
