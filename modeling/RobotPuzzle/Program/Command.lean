import RobotPuzzle.Counter

/-!
# Commands

A checked program is a list of commands. An action takes steps of the robot's; repetitions and
branches only arrange actions.

## Main definitions

* `Action` — what the robot does: moving, turning, and dealing with what is in its cell
* `Command` — an action, a repetition or a branch on the fire sensor
* `Command.work`, `workOf` — the number of steps in the worst case
* `Command.cost`, `costOf` — the same, added up by a 32-bit counter

## Main results

* `workOf_append` — the work of a sequence is the sum
* `Command.cost_eq`, `costOf_eq` — the counter shows the work as far as it can tell
-/

namespace RobotPuzzle

/-- Whether a move goes where the robot looks or the other way. -/
inductive Heading | forward | backward
  deriving DecidableEq, Repr

/-- What the robot does. A move goes on for a number of cells, one step for each. -/
inductive Action
  | move (heading : Heading) (cells : Nat)
  | turnLeft
  | turnRight
  | collect
  | extinguish
  | cover
  deriving DecidableEq, Repr

/-- A command. A branch asks whether the robot stands in an active fire, or whether it does not
if `negated`. -/
inductive Command
  | act (action : Action)
  | loop (count : Nat) (body : List Command)
  | branch (negated : Bool) (thenDo elseDo : List Command)
  deriving Repr

mutual

/-- Whether two commands are the same. -/
def Command.decEq : (c d : Command) → Decidable (c = d)
  | .act a, .act b => decidable_of_iff (a = b) (by simp)
  | .loop m cs, .loop n ds =>
    have := decEqCommands cs ds
    decidable_of_iff (m = n ∧ cs = ds) (by simp)
  | .branch b cs ds, .branch b' cs' ds' =>
    have := decEqCommands cs cs'
    have := decEqCommands ds ds'
    decidable_of_iff (b = b' ∧ cs = cs' ∧ ds = ds') (by simp)
  | .act _, .loop .. | .act _, .branch .. | .loop .., .act _ | .loop .., .branch ..
  | .branch .., .act _ | .branch .., .loop .. => isFalse nofun

/-- Whether two sequences of commands are the same. -/
def decEqCommands : (cs ds : List Command) → Decidable (cs = ds)
  | [], [] => isTrue rfl
  | c :: cs, d :: ds =>
    have := c.decEq d
    have := decEqCommands cs ds
    decidable_of_iff (c = d ∧ cs = ds) (by simp)
  | [], _ :: _ | _ :: _, [] => isFalse nofun

end

instance : DecidableEq Command := Command.decEq

/-- The steps of an action: a move takes one for each cell. -/
def Action.work : Action → Nat
  | move _ cells => cells
  | _ => 1

mutual

/-- The number of steps a command takes if every branch takes its longer way. -/
def Command.work : Command → Nat
  | .act a => a.work
  | .loop count body => count * workOf body
  | .branch _ thenDo elseDo => max (workOf thenDo) (workOf elseDo)

/-- The number of steps of commands carried out one after the other. -/
def workOf : List Command → Nat
  | [] => 0
  | c :: cs => c.work + workOf cs

end

mutual

/-- The declared cost of a command, in which every sum and product stops at the limit of the
counter. -/
def Command.cost : Command → Nat
  | .act a => saturate a.work
  | .loop count body => saturate (count * costFrom 0 body)
  | .branch _ thenDo elseDo => max (costFrom 0 thenDo) (costFrom 0 elseDo)

/-- The declared costs of commands, added from left to right to what was there before. -/
def costFrom : Nat → List Command → Nat
  | total, [] => total
  | total, c :: cs => costFrom (saturate (total + c.cost)) cs

end

/-- The declared cost of a sequence of commands. -/
def costOf (cs : List Command) : Nat := costFrom 0 cs

/-- Whether a command itself takes steps. -/
def Command.isPrimitive : Command → Bool
  | .act _ => true
  | _ => false

theorem workOf_append (cs ds : List Command) : workOf (cs ++ ds) = workOf cs + workOf ds := by
  induction cs with
  | nil => simp [workOf]
  | cons c cs ih => simp [workOf, ih, Nat.add_assoc]

mutual

/-- Stopping in every sum and product comes to the same as stopping once in the end. -/
theorem Command.cost_eq (c : Command) : c.cost = saturate c.work := by
  cases c with
  | act a => rfl
  | loop count body =>
    rw [Command.cost, Command.work, costFrom_eq body (Nat.zero_le _), Nat.zero_add,
      saturate_mul_saturate]
  | branch negated thenDo elseDo =>
    rw [Command.cost, Command.work, costFrom_eq thenDo (Nat.zero_le _),
      costFrom_eq elseDo (Nat.zero_le _), Nat.zero_add, Nat.zero_add, saturate_max]

theorem costFrom_eq {total : Nat} (cs : List Command) (h : total ≤ counterLimit) :
    costFrom total cs = saturate (total + workOf cs) := by
  cases cs with
  | nil => exact (saturate_eq_self h).symm
  | cons c cs =>
    rw [costFrom, workOf, Command.cost_eq c, costFrom_eq cs (saturate_le _), saturate_add_saturate,
      saturate_saturate_add]

end

theorem costOf_eq (cs : List Command) : costOf cs = saturate (workOf cs) := by
  rw [costOf, costFrom_eq cs (Nat.zero_le _), Nat.zero_add]

end RobotPuzzle
