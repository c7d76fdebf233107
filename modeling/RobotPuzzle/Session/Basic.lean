import RobotPuzzle.Level.Basic
import RobotPuzzle.Program.Compile
import RobotPuzzle.Run.Machine

/-!
# Sessions

A session lets a player try programs on one level, one run at a time. Each accepted program
starts a run of its own, named by a ticket, and the ticket can cancel that run and no other, even
from outside the session. A session narrates to a console and knows when the level is won.

## Main definitions

* `Session` — a level, its world, the active run if there is one, and the console
* `Phase` — what a session is doing
* `Session.start`, `Session.cancel`, `Session.reset`, `Session.clear` — what the player does
* `Session.tick`, `Session.tickFor` — one step of the active run
* `Session.ticket?`, `Session.cancelTicket`, `Session.isCancelled` — tickets

## Main results

* `Session.remaining_tick` — every tick that reports an event leaves fewer steps
-/

namespace RobotPuzzle

/-- Names a run: runs are numbered from 0 in the order in which they were started. -/
abbrev Ticket := Nat

/-- A run under way: its ticket, what it has still to do, and the steps it may take and has
taken. -/
structure ActiveRun where
  ticket : Ticket
  executor : Executor
  budget : Nat
  count : Nat := 0
  deriving Repr

/-- What a session is doing. -/
inductive Phase
  | idle
  | running
  | won
  /-- A run met a fault; the world may make no sense before it is reset. -/
  | blocked
  deriving DecidableEq, Repr

/-- A level in play. `cancelled` holds for every run ever started whether it was cancelled. -/
structure Session where
  level : Level
  world : World
  phase : Phase := .idle
  run? : Option ActiveRun := none
  lastOutcome : Option Outcome := none
  console : List String := []
  cancelled : List Bool := []

/-- Why a session refuses to do something. -/
inductive SessionError
  | alreadyRunning
  | alreadyWon
  | program (error : ProgramError)
  deriving DecidableEq, Repr

/-- The refusal in words. -/
def SessionError.message : SessionError → String
  | alreadyRunning => "a program is already running"
  | alreadyWon => "the level is complete; reset it to play again"
  | program error => error.message

namespace Session

/-- A session that nothing has happened in. -/
def ofLevel (level : Level) : Session := { level, world := level.world }

/-- The ticket of the active run. -/
def ticket? (s : Session) : Option Ticket := s.run?.map ActiveRun.ticket

/-- Whether a run has been cancelled. -/
def isCancelled (s : Session) (t : Ticket) : Bool := s.cancelled.getD t false

/-- Cancels a run. An active run notices before its next step. -/
def cancelTicket (s : Session) (t : Ticket) : Session :=
  { s with cancelled := s.cancelled.set t true }

/-- Writes a line to the console. -/
def say (s : Session) (line : String) : Session := { s with console := s.console ++ [line] }

/-- Makes a run of some commands the active one. -/
def launch (s : Session) (commands : List Command) : Session :=
  let run : ActiveRun :=
    { ticket := s.cancelled.length, executor := .ofCommands commands, budget := s.level.budget }
  { s with phase := .running, run? := some run, cancelled := s.cancelled ++ [false] }

/-- Starts a run of a program on the level as it was at first, unless a program is running or the
level is won. A rejected program leaves the level reset. -/
def start (s : Session) (source : String) : Except SessionError Unit × Session :=
  match s.phase with
  | .running => (.error .alreadyRunning, s)
  | .won => (.error .alreadyWon, s)
  | .idle | .blocked =>
    -- the level is put back before the program is read
    let fresh := { s with world := s.world.reset, phase := .idle, lastOutcome := none }
    match parse source s.level.budget with
    | .error e => (.error (.program e), fresh.say ("Program rejected: " ++ e.message))
    | .ok commands => (.ok (), fresh.launch commands)

/-- Cancels the active run and resets the level. The answer says whether there was a run. -/
def cancel (s : Session) : Bool × Session :=
  match s.run? with
  | none => (false, s)
  | some run =>
    let stopped := s.cancelTicket run.ticket
    (true, { stopped with
      world := s.world.reset
      phase := .idle
      run? := none
      lastOutcome := some .cancelled }.say "Execution cancelled.")

/-- Puts the level back to its beginning, unless a program is running. -/
def reset (s : Session) : Except SessionError Unit × Session :=
  if s.phase = .running then (.error .alreadyRunning, s)
  else (.ok (), { s with world := s.world.reset, phase := .idle })

/-- Empties the console. -/
def clear (s : Session) : Session := { s with console := [] }

/-- What the console says of an event in the world it led to. Moving and turning pass without
words. -/
def narration? (w : World) : Event → Option String
  | .collected _ => some "Crystal collected."
  | .collectMissed _ =>
    some (if w.crystal.collected then "The crystal was already collected."
      else "The robot is not on the crystal.")
  | .extinguished _ => some "Fire put out."
  | .extinguishMissed _ => some "There is no fire here."
  | .covered _ => some "Hole covered."
  | .coverMissed _ => some "There is nothing to cover here."
  | .moved .. | .bumped .. | .turned _ => none

/-- Tells the console about an event. -/
def narrate (s : Session) (e : Event) : Session :=
  match narration? s.world e with
  | some line => s.say line
  | none => s

/-- Ends the active run. A completed run wins the level if the robot stands with the collected
crystal in its cell; a cancelled one is undone. -/
def finish (s : Session) (o : Outcome) : Session :=
  let ended := { s with run? := none, lastOutcome := some o }
  match o with
  | .completed =>
    if s.world.Won then { ended with phase := .won }.say "Level complete!"
    else { ended with phase := .idle }
  | .cancelled =>
    { ended with world := s.world.reset, phase := .idle }.say "Execution cancelled."
  | .failed _ => { ended with phase := .blocked }

/-- The machine of an active run. -/
def machine (s : Session) (run : ActiveRun) : Machine where
  world := s.world
  executor := run.executor
  context :=
    { budget := run.budget, count := run.count, cancelled := s.isCancelled run.ticket }

/-- One step of the active run, and its event. There is none without a run, and none when the run
turns out to have ended. -/
def tick (s : Session) : Option Event × Session :=
  match s.run? with
  | none => (none, s)
  | some run =>
    match (s.machine run).step with
    | (.applied e, m) =>
      let run := { run with executor := m.executor, count := m.context.count }
      (some e, { s with world := m.world, run? := some run }.narrate e)
    | (.finished o, m) => (none, { s with world := m.world }.finish o)

section Tick

variable {s : Session} {run : ActiveRun} {m : Machine}

theorem tick_of_none (hrun : s.run? = none) : s.tick = (none, s) := by
  simp only [tick, hrun]

theorem tick_of_applied {e : Event} (hrun : s.run? = some run)
    (hstep : (s.machine run).step = (.applied e, m)) :
    s.tick =
      (some e,
        ({ s with
            world := m.world
            run? := some { run with executor := m.executor, count := m.context.count } } :
          Session).narrate e) := by
  simp only [tick, hrun, hstep]

theorem tick_of_finished {o : Outcome} (hrun : s.run? = some run)
    (hstep : (s.machine run).step = (.finished o, m)) :
    s.tick = (none, ({ s with world := m.world } : Session).finish o) := by
  simp only [tick, hrun, hstep]

end Tick

/-- One step of the active run, if it is the one with the given ticket. -/
def tickFor (s : Session) (t : Ticket) : Option Event × Session :=
  if s.ticket? = some t then s.tick else (none, s)

/-- The number of steps that the active run may still take. -/
def remaining (s : Session) : Nat :=
  match s.run? with
  | some run => run.budget - run.count
  | none => 0

@[simp] theorem narrate_run? (s : Session) (e : Event) : (s.narrate e).run? = s.run? := by
  unfold narrate
  split <;> rfl

theorem remaining_tick {s s' : Session} {e : Event} (h : s.tick = (some e, s')) :
    s'.remaining < s.remaining := by
  unfold tick at h
  split at h
  · simp at h
  · next run hrun =>
    split at h
    · next e' m hstep =>
      obtain ⟨-, rfl⟩ := Prod.mk.inj h
      obtain ⟨hlt, hcontext⟩ := Machine.step_applied hstep
      simp only [remaining, narrate_run?, hrun, hcontext]
      simp only [machine] at hlt ⊢
      omega
    · simp at h

theorem remaining_tickFor {s s' : Session} {t : Ticket} {e : Event}
    (h : s.tickFor t = (some e, s')) : s'.remaining < s.remaining := by
  unfold tickFor at h
  split at h
  · exact remaining_tick h
  · simp at h

end Session

end RobotPuzzle
