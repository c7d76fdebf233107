import RobotPuzzle.Text.Location

/-!
# Statements

The syntax tree of a program. Names and numbers stay as written: which names mean anything, and
which numbers are allowed, is decided later.

## Main definitions

* `Condition` — a sensor, asked for as it is or negated
* `Statement` — a call, a repetition or a branch
-/

namespace RobotPuzzle

/-- What a branch asks. `negated` says that an odd number of negations stands before the sensor,
whose location is `location`. -/
structure Condition where
  negated : Bool
  sensor : String
  location : Location
  deriving DecidableEq, Repr

/-- A statement with its blocks. A call's `text` is what the player wrote, from its name on. A
branch written as a further `if` after `else` is a block that holds this one branch. -/
inductive Statement
  | call (name : String) (argument : Option String) (text : String) (location : Location)
  | loop (count : String) (body : List Statement) (location : Location)
  | branch (condition : Condition) (thenBlock : List Statement)
      (elseBlock : Option (List Statement))
  deriving Repr

mutual

/-- Whether two statements are the same. -/
def Statement.decEq : (s t : Statement) → Decidable (s = t)
  | .call n a x l, .call n' a' x' l' =>
    decidable_of_iff (n = n' ∧ a = a' ∧ x = x' ∧ l = l') (by simp)
  | .loop n ss l, .loop n' ss' l' =>
    have := decEqBlocks ss ss'
    decidable_of_iff (n = n' ∧ ss = ss' ∧ l = l') (by simp)
  | .branch c ss es, .branch c' ss' es' =>
    have := decEqBlocks ss ss'
    have := decEqElse es es'
    decidable_of_iff (c = c' ∧ ss = ss' ∧ es = es') (by simp)
  | .call .., .loop .. | .call .., .branch .. | .loop .., .call .. | .loop .., .branch ..
  | .branch .., .call .. | .branch .., .loop .. => isFalse nofun

/-- Whether two blocks after `else` are the same. -/
def decEqElse : (es fs : Option (List Statement)) → Decidable (es = fs)
  | none, none => isTrue rfl
  | some ss, some ts =>
    have := decEqBlocks ss ts
    decidable_of_iff (ss = ts) (by simp)
  | none, some _ | some _, none => isFalse nofun

/-- Whether two blocks are the same. -/
def decEqBlocks : (ss ts : List Statement) → Decidable (ss = ts)
  | [], [] => isTrue rfl
  | s :: ss, t :: ts =>
    have := s.decEq t
    have := decEqBlocks ss ts
    decidable_of_iff (s = t ∧ ss = ts) (by simp)
  | [], _ :: _ | _ :: _, [] => isFalse nofun

end

instance : DecidableEq Statement := Statement.decEq

end RobotPuzzle
