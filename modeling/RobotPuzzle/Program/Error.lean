import RobotPuzzle.Text.Blank
import RobotPuzzle.Text.Location

/-!
# Program errors

Why a program is rejected, and what the player is told.

## Main definitions

* `ArgumentFault` — what is wrong with a statement's number
* `ProgramError` — why a program is rejected
* `ProgramError.ofOffset` — the error of a text with a mistake at a given offset
* `ProgramError.message` — what the player is told
-/

namespace RobotPuzzle

/-- The largest number of cells of a move and the largest count of a loop. -/
def maxArgument : Nat := 50

/-- What is wrong with the number of a statement. -/
inductive ArgumentFault | missing | unwanted | tooSmall | tooLarge
  deriving DecidableEq, Repr

/-- The fault in the player's words. -/
def ArgumentFault.reason : ArgumentFault → String
  | missing => "needs a number of steps, e.g. \x60forward 3\x60"
  | unwanted => "takes no argument"
  | tooSmall => "must be at least 1"
  | tooLarge => s!"must be at most {maxArgument}"

/-- Why a program is rejected. Costs are those of a 32-bit counter. -/
inductive ProgramError
  | unrecognized (fragment : String) (location : Location)
  | argument (fragment : String) (line : Nat) (fault : ArgumentFault)
  | overBudget (required budget : Nat)
  deriving DecidableEq, Repr

namespace ProgramError

/-- What is quoted of a text that goes wrong where it begins: the next characters up to white
space or a semicolon, if there are any. -/
def fragmentOf (text : List Char) : String :=
  match (trimStart text).takeWhile fun c => !isBlank c && c != ';' with
  | [] => "<end of program>"
  | cs => String.ofList cs

/-- The error of a text with a mistake at a given offset. -/
def ofOffset (text : List Char) (offset : Nat) : ProgramError :=
  .unrecognized (fragmentOf (text.drop offset)) (.ofOffset text offset)

/-- What the player is told. -/
def message : ProgramError → String
  | unrecognized fragment l =>
    s!"line {l.line}, column {l.column}: I don't understand \x60" ++ fragment ++ "\x60"
  | argument fragment line fault => s!"line {line}: \x60" ++ fragment ++ "\x60 " ++ fault.reason
  | overBudget required budget =>
    s!"program needs at least {required} instructions but only {budget} are allowed"

end ProgramError

end RobotPuzzle
