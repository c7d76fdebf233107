import RobotPuzzle.Session.Basic

/-!
# Driving a run to its end

A run may be driven one tick after the other by whoever holds the session, at once, or with an
action of the caller's own after each step, for instance a pause.

## Main definitions

* `Session.tickAll` — ticks until nothing is left to run
* `Session.tickAllFor` — the same for one run, by the holder of its ticket
* `Session.runToCompletion` — the same, for its outcome
* `Session.runAwaiting` — the same, with a pause after each step in which runs may be cancelled
* `Session.runPaced` — the same, with an action after each step that cancels nothing
-/

namespace RobotPuzzle.Session

/-- Ticks until nothing is left to run. -/
def tickAll (s : Session) : List Event × Session :=
  match _h : s.tick with
  | (none, s') => ([], s')
  | (some e, s') =>
    let (events, last) := tickAll s'
    (e :: events, last)
termination_by s.remaining
decreasing_by exact remaining_tick _h

/-- Ticks on behalf of one run until that run is over, or is not the active one. -/
def tickAllFor (s : Session) (t : Ticket) : List Event × Session :=
  match _h : s.tickFor t with
  | (none, s') => ([], s')
  | (some e, s') =>
    let (events, last) := tickAllFor s' t
    (e :: events, last)
termination_by s.remaining
decreasing_by exact remaining_tickFor _h

/-- Ticks until nothing is left to run, and answers the outcome of the last run. -/
def runToCompletion (s : Session) : Option Outcome × Session :=
  match _h : s.tick with
  | (none, s') => (s'.lastOutcome, s')
  | (some _, s') => runToCompletion s'
termination_by s.remaining
decreasing_by exact remaining_tick _h

/-- Cancels several runs. -/
def cancelTickets (s : Session) (ts : List Ticket) : Session := ts.foldl cancelTicket s

@[simp] theorem remaining_cancelTickets (s : Session) (ts : List Ticket) :
    (s.cancelTickets ts).remaining = s.remaining := by
  induction ts generalizing s with
  | nil => rfl
  | cons t ts ih => exact ih (s.cancelTicket t)

/-- Ticks until nothing is left to run, and waits after each event. Nobody else can step the
session in the meantime, but runs can be cancelled: waiting answers the tickets of those that
were. -/
def runAwaiting {m : Type → Type} [Monad m] (wait : Event → m (List Ticket)) (s : Session) :
    m (Option Outcome × Session) :=
  match _h : s.tick with
  | (none, s') => pure (s'.lastOutcome, s')
  | (some e, s') => do
    let ts ← wait e
    runAwaiting wait (s'.cancelTickets ts)
termination_by s.remaining
decreasing_by
  rw [remaining_cancelTickets]
  exact remaining_tick _h

/-- Ticks until nothing is left to run, with an action of the caller's after each event. -/
def runPaced {m : Type → Type} [Monad m] (pace : Event → m Unit) (s : Session) :
    m (Option Outcome × Session) :=
  s.runAwaiting fun e => do
    pace e
    pure []

theorem tickAll_of_none {s s' : Session} (h : s.tick = (none, s')) : s.tickAll = ([], s') := by
  rw [tickAll]
  split
  · next he =>
    rw [h] at he
    cases he
    rfl
  · next he => simp [h] at he

theorem tickAll_of_some {s s' : Session} {e : Event} (h : s.tick = (some e, s')) :
    s.tickAll = (e :: s'.tickAll.1, s'.tickAll.2) := by
  rw [tickAll]
  split
  · next he => simp [h] at he
  · next he =>
    rw [h] at he
    cases he
    rfl

theorem tickAllFor_of_none {s s' : Session} {t : Ticket} (h : s.tickFor t = (none, s')) :
    s.tickAllFor t = ([], s') := by
  rw [tickAllFor]
  split
  · next he =>
    rw [h] at he
    cases he
    rfl
  · next he => simp [h] at he

theorem tickAllFor_of_some {s s' : Session} {t : Ticket} {e : Event}
    (h : s.tickFor t = (some e, s')) :
    s.tickAllFor t = (e :: (s'.tickAllFor t).1, (s'.tickAllFor t).2) := by
  rw [tickAllFor]
  split
  · next he => simp [h] at he
  · next he =>
    rw [h] at he
    cases he
    rfl

theorem runToCompletion_of_none {s s' : Session} (h : s.tick = (none, s')) :
    s.runToCompletion = (s'.lastOutcome, s') := by
  rw [runToCompletion]
  split
  · next he =>
    rw [h] at he
    cases he
    rfl
  · next he => simp [h] at he

theorem runToCompletion_of_some {s s' : Session} {e : Event} (h : s.tick = (some e, s')) :
    s.runToCompletion = s'.runToCompletion := by
  rw [runToCompletion]
  split
  · next he => simp [h] at he
  · next he =>
    rw [h] at he
    cases he
    rfl

section Awaiting

variable {m : Type → Type} [Monad m] {wait : Event → m (List Ticket)} {s s' : Session}

theorem runAwaiting_of_none (h : s.tick = (none, s')) :
    s.runAwaiting wait = pure (s'.lastOutcome, s') := by
  rw [runAwaiting]
  split
  · next he =>
    rw [h] at he
    cases he
    rfl
  · next he => simp [h] at he

theorem runAwaiting_of_some {e : Event} (h : s.tick = (some e, s')) :
    s.runAwaiting wait = wait e >>= fun ts => (s'.cancelTickets ts).runAwaiting wait := by
  rw [runAwaiting]
  split
  · next he => simp [h] at he
  · next he =>
    rw [h] at he
    cases he
    rfl

end Awaiting

end RobotPuzzle.Session
