import RobotPuzzle.Scene
import RobotPuzzle.Session.View
import RobotPuzzle.Main
import RobotPuzzle.Proofs.Budget
import RobotPuzzle.Proofs.Motion
import RobotPuzzle.Proofs.Restoring
import RobotPuzzle.Proofs.RoundTrip
import RobotPuzzle.Proofs.Cutting
import RobotPuzzle.Proofs.Independence
import RobotPuzzle.Proofs.Tickets
import RobotPuzzle.Proofs.Replay
import RobotPuzzle.Proofs.Building
import RobotPuzzle.Proofs.Erasure
import RobotPuzzle.Proofs.Joining
import RobotPuzzle.Proofs.Driving
import RobotPuzzle.Proofs.Transcript
import RobotPuzzle.Proofs.Refusal
import RobotPuzzle.Proofs.Depletion
import RobotPuzzle.Proofs.Reporting
import RobotPuzzle.Proofs.Blame
import RobotPuzzle.Proofs.Attempts
import RobotPuzzle.Proofs.Striding
import RobotPuzzle.Proofs.Spending
import RobotPuzzle.Proofs.Judging
import RobotPuzzle.Proofs.Choosing
import RobotPuzzle.Proofs.Registering
import RobotPuzzle.Proofs.Quoting
import RobotPuzzle.Proofs.Excerpt
import RobotPuzzle.Proofs.Ending
import RobotPuzzle.Proofs.Fitting
