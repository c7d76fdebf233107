import RobotPuzzle.Program.Command

/-!
# The vocabulary of programs

The verbs and sensors that a program may use, most of them under several names, and the
integers that its numbers denote.

## Main definitions

* `Verb`, `Verb.ofName?` — the verbs
* `isFireSensor` — the names of the only sensor
* `denoted` — the integer of a written number
-/

namespace RobotPuzzle

/-- A verb: a move, which needs a number, or an action complete in itself. -/
inductive Verb
  | move (heading : Heading)
  | plain (action : Action)
  deriving DecidableEq, Repr

/-- The verb with a given name. -/
def Verb.ofName? : String → Option Verb
  | "forward" | "moveForward" => some (.move .forward)
  | "backward" | "back" | "moveBackward" => some (.move .backward)
  | "turnLeft" | "left" => some (.plain .turnLeft)
  | "turnRight" | "right" => some (.plain .turnRight)
  | "collect" => some (.plain .collect)
  | "extinguish" => some (.plain .extinguish)
  | "cover" => some (.plain .cover)
  | _ => none

/-- Whether a name is one of the fire sensor's. -/
def isFireSensor (name : String) : Bool := name == "onFire" || name == "isOnFire"

/-- The natural number that decimal digits denote. -/
def digitsValue (cs : List Char) : Nat :=
  cs.foldl (fun n c => 10 * n + (c.toNat - '0'.toNat)) 0

/-- The integer that a written number denotes. Leading zeros do not count. -/
def denoted (digits : String) : Int :=
  match digits.toList with
  | '-' :: cs => -digitsValue cs
  | cs => digitsValue cs

end RobotPuzzle
