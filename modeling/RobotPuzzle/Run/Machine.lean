import RobotPuzzle.Program.Command
import RobotPuzzle.Run.Event

/-!
# Carrying out commands

A machine holds a world and the commands that are still to be carried out in it. Every step
applies one action to the world, a move one cell at a time; repetitions and branches take no step
and are replaced by what they stand for when they come first. Between two steps a run may be
cancelled. A step that would exceed the budget is a fault, as is a move of a robot that stands
off the board.

## Main definitions

* `Action.perform`, `Action.rest` — one step of an action, and what is left of it
* `next?` — the first action of some commands in a given world
* `Executor`, `Context`, `Machine` — the state of a run
* `Machine.step` — one step
* `Machine.run` — all steps

## Main results

* `next?` and `Machine.run` are defined for all commands and all machines
* `Machine.step_applied` — an applied step was within the budget and counts as one
-/

namespace RobotPuzzle

/-- The number of steps an action takes at least once it is carried out: a move of no cells still
tries one. -/
def Action.strides : Action → Nat
  | .move _ cells => max cells 1
  | _ => 1

mutual

/-- A measure of commands that every replacement makes smaller. -/
def Command.weight : Command → Nat
  | .act a => a.strides
  | .loop count body => 1 + count * weightOf body
  | .branch _ thenDo elseDo => 1 + max (weightOf thenDo) (weightOf elseDo)

/-- The measure of a sequence of commands. -/
def weightOf : List Command → Nat
  | [] => 0
  | c :: cs => c.weight + weightOf cs

end

theorem weightOf_append (cs ds : List Command) :
    weightOf (cs ++ ds) = weightOf cs + weightOf ds := by
  induction cs with
  | nil => simp [weightOf]
  | cons c cs ih => simp [weightOf, ih, Nat.add_assoc]

theorem weightOf_replicate (n : Nat) (cs : List Command) :
    weightOf (List.replicate n cs).flatten = n * weightOf cs := by
  induction n with
  | zero => simp [weightOf]
  | succ n ih => simp [List.replicate_succ, weightOf_append, ih, Nat.succ_mul, Nat.add_comm]

/-- The commands of a body carried out some number of times. No rounds are written out of a body
without commands. -/
def rounds (n : Nat) (body : List Command) : List Command :=
  if body.isEmpty then [] else (List.replicate n body).flatten

theorem rounds_eq (n : Nat) (body : List Command) :
    rounds n body = (List.replicate n body).flatten := by
  cases body <;> simp [rounds]

/-- The cell ahead of a robot, or behind it. -/
def Robot.ahead (r : Robot) : Heading → Cell
  | .forward => r.cell.shift r.facing.offset
  | .backward => r.cell.shift r.facing.opposite.offset

/-- One cell of a move. Walls and the edge of the board leave the robot where it is. -/
def World.stride (w : World) (heading : Heading) : Except Fault (Event × World) :=
  let source := w.robot.cell
  let target := w.robot.ahead heading
  if w.grid.Contains source then
    if w.grid.Passable target then
      .ok (.moved source target (w.grid.onFire target),
        { w with robot := { w.robot with cell := target } })
    else
      .ok (.bumped source target, w)
  else
    .error (.offGrid source)

/-- Turns the robot. -/
def World.turn (w : World) (facing : Facing) : Event × World :=
  (.turned facing, { w with robot := { w.robot with facing } })

/-- One step of an action, with the event that tells what it did. -/
def Action.perform (w : World) : Action → Except Fault (Event × World)
  | .move heading _ => w.stride heading
  | .turnLeft => .ok (w.turn w.robot.facing.left)
  | .turnRight => .ok (w.turn w.robot.facing.right)
  | .collect =>
    if w.AtCrystal ∧ w.crystal.collected = false then
      .ok (.collected w.robot.cell, { w with crystal := { w.crystal with collected := true } })
    else
      .ok (.collectMissed w.robot.cell, w)
  | .extinguish =>
    match w.grid.deactivate? w.robot.cell (some .fire) with
    | some grid => .ok (.extinguished w.robot.cell, { w with grid })
    | none => .ok (.extinguishMissed w.robot.cell, w)
  | .cover =>
    match w.grid.deactivate? w.robot.cell none with
    | some grid => .ok (.covered w.robot.cell, { w with grid })
    | none => .ok (.coverMissed w.robot.cell, w)

/-- What is left of an action after its first step: the other cells of a move. -/
def Action.rest : Action → List Command
  | .move heading (n + 2) => [.act (.move heading (n + 1))]
  | _ => []

/-- The first action of some commands in a world, with the commands that follow it. A repetition
stands for its rounds, and a branch for the block that fits the world as it is now. -/
def next? (w : World) : List Command → Option (Action × List Command)
  | [] => none
  | .act a :: cs => some (a, cs)
  | .loop n body :: cs => next? w (rounds n body ++ cs)
  | .branch negated thenDo elseDo :: cs =>
    next? w ((if w.onFire != negated then thenDo else elseDo) ++ cs)
termination_by cs => weightOf cs
decreasing_by
  · simp only [rounds_eq, weightOf_append, weightOf_replicate, weightOf, Command.weight]
    omega
  · simp only [weightOf_append, weightOf, Command.weight]
    split <;> omega

@[simp] theorem next?_nil (w : World) : next? w [] = none := by
  rw [next?]

@[simp] theorem next?_act (w : World) (a : Action) (cs : List Command) :
    next? w (.act a :: cs) = some (a, cs) := by
  rw [next?]

theorem next?_loop (w : World) (n : Nat) (body cs : List Command) :
    next? w (.loop n body :: cs) = next? w ((List.replicate n body).flatten ++ cs) := by
  rw [next?, rounds_eq]

theorem next?_branch (w : World) (negated : Bool) (thenDo elseDo cs : List Command) :
    next? w (.branch negated thenDo elseDo :: cs) =
      next? w ((if w.onFire != negated then thenDo else elseDo) ++ cs) := by
  rw [next?]

/-- The commands still to be carried out, until an outcome is reached. -/
structure Executor where
  pending : List Command
  outcome? : Option Outcome := none
  deriving Repr

namespace Executor

/-- An executor that has carried out nothing. -/
def ofCommands (cs : List Command) : Executor := { pending := cs }

/-- Whether an outcome is reached. -/
def isFinished (e : Executor) : Bool := e.outcome?.isSome

end Executor

/-- The steps a run has taken and may take, and whether it has been cancelled. -/
structure Context where
  budget : Nat
  count : Nat := 0
  cancelled : Bool := false
  deriving DecidableEq, Repr

/-- What a step came to. -/
inductive Step
  | applied (event : Event)
  | finished (outcome : Outcome)
  deriving DecidableEq, Repr

/-- A run under way in a world. -/
structure Machine where
  world : World
  executor : Executor
  context : Context
  deriving Repr

namespace Machine

/-- Ends a run; nothing is left to be carried out. -/
def finish (m : Machine) (o : Outcome) : Step × Machine :=
  (.finished o, { m with executor := { pending := [], outcome? := some o } })

/-- Applies at most one action. A run that has ended keeps its outcome. -/
def step (m : Machine) : Step × Machine :=
  match m.executor.outcome? with
  | some o => (.finished o, m)
  | none =>
    -- a cancelled run ends so even if nothing is left to be done
    if m.context.cancelled then m.finish .cancelled
    else
      -- reaching the end takes no step, so the budget is asked only when there is an action
      match next? m.world m.executor.pending with
      | none => m.finish .completed
      | some (action, rest) =>
        if m.context.budget ≤ m.context.count then
          m.finish (.failed (.budgetOverrun m.context.budget))
        else
          match action.perform m.world with
          | .error fault => m.finish (.failed fault)
          | .ok (event, world) =>
            (.applied event,
              { world
                executor := { pending := action.rest ++ rest }
                context := { m.context with count := m.context.count + 1 } })

section Step

variable {m : Machine} {a : Action} {rest : List Command}

theorem step_of_cancelled (h : m.executor.outcome? = none) (hc : m.context.cancelled = true) :
    m.step = m.finish .cancelled := by
  simp [step, h, hc]

theorem step_of_none (h : m.executor.outcome? = none) (hc : m.context.cancelled = false)
    (hnext : next? m.world m.executor.pending = none) : m.step = m.finish .completed := by
  simp [step, h, hc, hnext]

theorem step_of_spent (h : m.executor.outcome? = none) (hc : m.context.cancelled = false)
    (hnext : next? m.world m.executor.pending = some (a, rest))
    (hspent : m.context.budget ≤ m.context.count) :
    m.step = m.finish (.failed (.budgetOverrun m.context.budget)) := by
  simp [step, h, hc, hnext, hspent]

theorem step_of_fault {f : Fault} (h : m.executor.outcome? = none)
    (hc : m.context.cancelled = false)
    (hnext : next? m.world m.executor.pending = some (a, rest))
    (hopen : ¬ m.context.budget ≤ m.context.count) (hperform : a.perform m.world = .error f) :
    m.step = m.finish (.failed f) := by
  simp [step, h, hc, hnext, hopen, hperform]

theorem step_of_performed {e : Event} {w : World} (h : m.executor.outcome? = none)
    (hc : m.context.cancelled = false)
    (hnext : next? m.world m.executor.pending = some (a, rest))
    (hopen : ¬ m.context.budget ≤ m.context.count) (hperform : a.perform m.world = .ok (e, w)) :
    m.step = (.applied e,
      { world := w
        executor := { pending := a.rest ++ rest }
        context := { m.context with count := m.context.count + 1 } }) := by
  simp [step, h, hc, hnext, hopen, hperform]

end Step

theorem step_applied {m m' : Machine} {e : Event} (h : m.step = (.applied e, m')) :
    m.context.count < m.context.budget ∧
      m'.context = { m.context with count := m.context.count + 1 } := by
  unfold step at h
  split at h
  · simp at h
  · split at h
    · simp [finish] at h
    · split at h
      · simp [finish] at h
      · split at h
        · simp [finish] at h
        · next hlt =>
          split at h
          · simp [finish] at h
          · obtain ⟨-, rfl⟩ := Prod.mk.inj h
            exact ⟨Nat.lt_of_not_le hlt, rfl⟩

/-- The events of a run, its outcome, and the machine at its end. -/
structure Run where
  events : List Event
  outcome : Outcome
  machine : Machine
  deriving Repr

/-- Applies steps until an outcome is reached, which the budget guarantees. -/
def run (m : Machine) : Run :=
  match _h : m.step with
  | (.finished outcome, machine) => { events := [], outcome, machine }
  | (.applied event, m') =>
    let later := run m'
    { later with events := event :: later.events }
termination_by m.context.budget - m.context.count
decreasing_by
  have := step_applied _h
  simp [this.2]
  omega

theorem run_of_finished {m m' : Machine} {o : Outcome} (h : m.step = (.finished o, m')) :
    m.run = { events := [], outcome := o, machine := m' } := by
  rw [run]
  split
  · next he =>
    rw [h] at he
    cases he
    rfl
  · next he => simp [h] at he

theorem run_of_applied {m m' : Machine} {e : Event} (h : m.step = (.applied e, m')) :
    m.run = { m'.run with events := e :: m'.run.events } := by
  rw [run]
  split
  · next he => simp [h] at he
  · next he =>
    rw [h] at he
    cases he
    rfl

end Machine

end RobotPuzzle
