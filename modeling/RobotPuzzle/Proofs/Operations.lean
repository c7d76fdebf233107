import Mathlib.Logic.Relation
import RobotPuzzle.Proofs.Consistency

/-!
# Operations, case by case

A program that is accepted launches a run. Whatever else is done with a session comes down to a few
kinds of changes: driving a run to its end, for instance, is nothing but its steps, between which
runs may be cancelled. So what launching and these changes keep holds all along.

## Main definitions

* `Session.Answer`, `Session.answer` — what the caller of an operation is told
* `Session.Playable`, `Session.fresh` — when a program can be started, and where from
* `Session.Accepts` — an operation launches a run
* `Session.Change`, `Session.Changes` — everything else that can happen to a session

## Main results

* `Session.start_cases` — what starting a program can come to
* `Session.apply_cases` — an operation launches a run or comes down to changes
* `Session.after_induction` — what launching and changes keep holds all along
* `Session.level_after` — a session stays on its level
* `Session.running_iff_after` — a run is active just while the session says so
-/

namespace RobotPuzzle

namespace Session

/-- What the caller of an operation is told. An awaited run also leaves the last state of its
pauses. -/
inductive Answer : Type 1
  | result (r : Except SessionError Unit)
  | stopped (running : Bool)
  | event (e? : Option Event)
  | outcome (o? : Option Outcome)
  | awaited {σ : Type} (o? : Option Outcome) (last : σ)
  | nothing

/-- What an operation answers. -/
def answer (s : Session) : Operation → Answer
  | .start source => .result (s.start source).1
  | .cancel => .stopped s.cancel.1
  | .reset => .result s.reset.1
  | .clear => .nothing
  | .tick => .event s.tick.1
  | .tickFor t => .event (s.tickFor t).1
  | .runToCompletion => .outcome s.runToCompletion.1
  | .runAwaiting wait before =>
    .awaited ((s.runAwaiting wait).run before).1.1 ((s.runAwaiting wait).run before).2
  | .cancelTicket _ => .nothing

@[simp] theorem after_nil (s : Session) : s.after [] = s := rfl

@[simp] theorem after_cons (s : Session) (op : Operation) (ops : List Operation) :
    s.after (op :: ops) = (s.apply op).after ops := rfl

theorem after_append (s : Session) (ops later : List Operation) :
    s.after (ops ++ later) = (s.after ops).after later := List.foldl_append

/-! ### Starting a program -/

/-- A program can be started: none is running, and the level is not won. -/
structure Playable (s : Session) : Prop where
  not_running : s.phase ≠ .running
  not_won : s.phase ≠ .won

/-- The session before its next program is read: the level is put back, and the last outcome is
forgotten. -/
def fresh (s : Session) : Session :=
  { s with world := s.world.reset, phase := .idle, lastOutcome := none }

variable {s s' : Session} {source : String}

theorem start_of_running (h : s.phase = .running) :
    s.start source = (.error .alreadyRunning, s) := by
  simp only [start, h]

theorem start_of_won (h : s.phase = .won) : s.start source = (.error .alreadyWon, s) := by
  simp only [start, h]

theorem start_of_error {e : ProgramError} (h : s.Playable)
    (hparse : parse source s.level.budget = .error e) :
    s.start source =
      (.error (.program e), s.fresh.say ("Program rejected: " ++ e.message)) := by
  unfold start
  cases hphase : s.phase with
  | running => exact absurd hphase h.not_running
  | won => exact absurd hphase h.not_won
  | idle | blocked =>
    simp only [hparse]
    rfl

theorem start_of_ok {commands : List Command} (h : s.Playable)
    (hparse : parse source s.level.budget = .ok commands) :
    s.start source = (.ok (), s.fresh.launch commands) := by
  unfold start
  cases hphase : s.phase with
  | running => exact absurd hphase h.not_running
  | won => exact absurd hphase h.not_won
  | idle | blocked =>
    simp only [hparse]
    rfl

/-- Starting a program is refused, or it rejects the program, or it launches a run. -/
theorem start_cases (s : Session) (source : String) :
    (∃ e, s.start source = (.error e, s)) ∨
      (∃ e line, s.Playable ∧ s.start source = (.error e, s.fresh.say line)) ∨
      ∃ commands, s.Playable ∧ s.start source = (.ok (), s.fresh.launch commands) := by
  -- the phase is asked before the program is read
  by_cases hrunning : s.phase = .running
  · exact .inl ⟨_, start_of_running hrunning⟩
  · by_cases hwon : s.phase = .won
    · exact .inl ⟨_, start_of_won hwon⟩
    · have hplayable : s.Playable := ⟨hrunning, hwon⟩
      cases hparse : parse source s.level.budget with
      | error e => exact .inr (.inl ⟨_, _, hplayable, start_of_error hplayable hparse⟩)
      | ok commands => exact .inr (.inr ⟨commands, hplayable, start_of_ok hplayable hparse⟩)

theorem start_of_accepted (h : (s.start source).1 = .ok ()) :
    ∃ commands, s.Playable ∧ s.start source = (.ok (), s.fresh.launch commands) := by
  obtain ⟨e, hstart⟩ | ⟨e, line, -, hstart⟩ | hlaunched := s.start_cases source
  · rw [hstart] at h
    cases h
  · rw [hstart] at h
    cases h
  · exact hlaunched

/-! ### Resetting the level -/

theorem reset_of_running (h : s.phase = .running) : s.reset = (.error .alreadyRunning, s) := by
  rw [reset, if_pos h]

theorem reset_of_not_running (h : s.phase ≠ .running) :
    s.reset = (.ok (), { s with world := s.world.reset, phase := .idle }) := by
  rw [reset, if_neg h]

/-! ### What operations come down to -/

/-- An operation starts a program that is accepted. -/
def Accepts (s : Session) (op : Operation) : Prop :=
  ∃ source, op = .start source ∧ (s.start source).1 = .ok ()

/-- What can happen to a session without a run being launched. -/
inductive Change (s : Session) : Session → Prop
  | rejected (playable : s.Playable) (line : String) : Change s (s.fresh.say line)
  | stopped {run : ActiveRun} (active : s.run? = some run) :
      Change s (({ s.cancelTicket run.ticket with
        world := s.world.reset
        phase := .idle
        run? := none
        lastOutcome := some .cancelled } : Session).say "Execution cancelled.")
  | reset (quiet : s.phase ≠ .running) : Change s { s with world := s.world.reset, phase := .idle }
  | cleared : Change s s.clear
  | stepped {run : ActiveRun} {e : Event} {m : Machine} (active : s.run? = some run)
      (step : (s.machine run).step = (.applied e, m)) :
      Change s (({ s with
        world := m.world
        run? := some { run with executor := m.executor, count := m.context.count } } :
          Session).narrate e)
  | finished {run : ActiveRun} {o : Outcome} {m : Machine} (active : s.run? = some run)
      (step : (s.machine run).step = (.finished o, m)) :
      Change s (({ s with world := m.world } : Session).finish o)
  | told (t : Ticket) : Change s (s.cancelTicket t)

/-- Any number of changes. -/
abbrev Changes : Session → Session → Prop := Relation.ReflTransGen Change

theorem changes_start (h : (s.start source).1 ≠ .ok ()) : s.Changes (s.start source).2 := by
  obtain ⟨e, hstart⟩ | ⟨e, line, hplayable, hstart⟩ | ⟨commands, -, hstart⟩ :=
    s.start_cases source
  · rw [hstart]
  · rw [hstart]
    exact .single (.rejected hplayable line)
  · rw [hstart] at h
    exact absurd rfl h

theorem changes_cancel (s : Session) : s.Changes s.cancel.2 := by
  cases hrun : s.run? with
  | none =>
    simp only [cancel, hrun]
    exact .refl
  | some run =>
    simp only [cancel, hrun]
    exact .single (.stopped hrun)

theorem changes_reset (s : Session) : s.Changes s.reset.2 := by
  by_cases hphase : s.phase = .running
  · rw [reset_of_running hphase]
  · rw [reset_of_not_running hphase]
    exact .single (.reset hphase)

theorem changes_tick (s : Session) : s.Changes s.tick.2 := by
  cases hrun : s.run? with
  | none => rw [tick_of_none hrun]
  | some run =>
    rcases hstep : (s.machine run).step with ⟨e | o, m⟩
    · rw [tick_of_applied hrun hstep]
      exact .single (.stepped hrun hstep)
    · rw [tick_of_finished hrun hstep]
      exact .single (.finished hrun hstep)

theorem changes_of_tick {e? : Option Event} (h : s.tick = (e?, s')) : s.Changes s' := by
  have htick := s.changes_tick
  rwa [h] at htick

theorem changes_tickFor (s : Session) (t : Ticket) : s.Changes (s.tickFor t).2 := by
  unfold tickFor
  split
  · exact s.changes_tick
  · exact .refl

theorem changes_runToCompletion (s : Session) : s.Changes s.runToCompletion.2 := by
  fun_induction runToCompletion s with
  | case1 s s' htick => exact changes_of_tick htick
  | case2 s e s' htick ih => exact (changes_of_tick htick).trans ih

theorem changes_cancelTickets (s : Session) (ts : List Ticket) :
    s.Changes (s.cancelTickets ts) := by
  induction ts generalizing s with
  | nil => exact .refl
  | cons t ts ih => exact .head (.told t) (ih (s.cancelTicket t))

theorem changes_runAwaiting {σ : Type} (s : Session) (wait : Event → StateM σ (List Ticket))
    (before : σ) : s.Changes ((s.runAwaiting wait).run before).1.2 := by
  induction s using pause_induction generalizing before with
  | pause s ih =>
    rcases htick : s.tick with ⟨e?, s'⟩
    cases e? with
    | none =>
      rw [runAwaiting_of_none htick]
      exact changes_of_tick htick
    | some e =>
      rw [runAwaiting_of_some htick]
      -- runs that are cancelled during the pause change the session after the tick
      have hpaused := (changes_of_tick htick).trans (changes_cancelTickets s' (wait e before).1)
      exact hpaused.trans (ih e s' (wait e before).1 htick (wait e before).2)

/-- An operation launches a run, or comes down to changes. -/
theorem apply_cases (s : Session) (op : Operation) :
    (s.Accepts op ∧ ∃ commands, s.Playable ∧ s.apply op = s.fresh.launch commands) ∨
      (¬ s.Accepts op ∧ s.Changes (s.apply op)) := by
  -- no other operation than starting launches anything
  have hother : (∀ source, op ≠ .start source) → ¬ s.Accepts op := by
    rintro hne ⟨source, hop, -⟩
    exact hne source hop
  cases op with
  | start source =>
    by_cases h : (s.start source).1 = .ok ()
    · obtain ⟨commands, hplayable, hstart⟩ := start_of_accepted h
      exact .inl ⟨⟨source, rfl, h⟩, commands, hplayable, congrArg Prod.snd hstart⟩
    · refine .inr ⟨?_, changes_start h⟩
      rintro ⟨_, ⟨⟩, haccepted⟩
      exact h haccepted
  | cancel => exact .inr ⟨hother (by simp), s.changes_cancel⟩
  | reset => exact .inr ⟨hother (by simp), s.changes_reset⟩
  | clear => exact .inr ⟨hother (by simp), .single .cleared⟩
  | tick => exact .inr ⟨hother (by simp), s.changes_tick⟩
  | tickFor t => exact .inr ⟨hother (by simp), s.changes_tickFor t⟩
  | runToCompletion => exact .inr ⟨hother (by simp), s.changes_runToCompletion⟩
  | runAwaiting wait before => exact .inr ⟨hother (by simp), s.changes_runAwaiting wait before⟩
  | cancelTicket t => exact .inr ⟨hother (by simp), .single (.told t)⟩

/-- What no change destroys, any number of changes keeps. -/
theorem Changes.induction {P : Session → Prop} (change : ∀ {s s'}, s.Change s' → P s → P s')
    (h : s.Changes s') (hs : P s) : P s' := by
  induction h with
  | refl => exact hs
  | tail _ hchange ih => exact change hchange ih

/-- What launching and changes keep holds all along. -/
theorem after_induction {P : Session → Prop}
    (launch : ∀ {s commands}, s.Playable → P s → P (s.fresh.launch commands))
    (change : ∀ {s s'}, s.Change s' → P s → P s') (h : P s) (ops : List Operation) :
    P (s.after ops) := by
  induction ops generalizing s with
  | nil => exact h
  | cons op ops ih =>
    apply ih
    obtain ⟨-, commands, hplayable, hlaunch⟩ | ⟨-, hchanges⟩ := s.apply_cases op
    · rw [hlaunch]
      exact launch hplayable h
    · exact hchanges.induction change h

/-! ### What changes keep -/

/-- Telling of an event only adds to the console. -/
theorem narrate_eq (s : Session) (e : Event) : ∃ console, s.narrate e = { s with console } := by
  unfold narrate
  split
  · exact ⟨_, rfl⟩
  · exact ⟨s.console, rfl⟩

/-- The end of a run is its outcome, with what follows from it for phase, world and console. -/
theorem finish_eq (s : Session) (o : Outcome) :
    ∃ phase world console, phase ≠ .running ∧
      s.finish o = { s with run? := none, lastOutcome := some o, phase, world, console } := by
  cases o with
  | completed =>
    unfold finish
    dsimp only
    split
    · exact ⟨.won, s.world, _, by simp, rfl⟩
    · exact ⟨.idle, s.world, s.console, by simp, rfl⟩
  | cancelled => exact ⟨.idle, s.world.reset, _, by simp, rfl⟩
  | failed f => exact ⟨.blocked, s.world, s.console, by simp, rfl⟩

namespace Change

theorem level_eq (h : s.Change s') : s'.level = s.level := by
  cases h with
  | rejected | stopped | reset | cleared | told => rfl
  | stepped active step =>
    obtain ⟨console, hnarrate⟩ := narrate_eq _ _
    rw [hnarrate]
  | finished active step =>
    obtain ⟨phase, world, console, -, hfinish⟩ := finish_eq _ _
    rw [hfinish]

/-- No run is forgotten, and none is added. -/
theorem length_cancelled (h : s.Change s') : s'.cancelled.length = s.cancelled.length := by
  cases h with
  | rejected | reset | cleared => rfl
  | stopped | told => exact List.length_set
  | stepped active step =>
    obtain ⟨console, hnarrate⟩ := narrate_eq _ _
    rw [hnarrate]
  | finished active step =>
    obtain ⟨phase, world, console, -, hfinish⟩ := finish_eq _ _
    rw [hfinish]

/-- The active run goes on under its own ticket, if it does not end. -/
theorem ticket?_eq (h : s.Change s') : s'.ticket? = s.ticket? ∨ s'.ticket? = none := by
  cases h with
  | rejected | reset | cleared | told => exact .inl rfl
  | stopped => exact .inr rfl
  | stepped active step =>
    obtain ⟨console, hnarrate⟩ := narrate_eq _ _
    rw [hnarrate, ticket?, ticket?, active]
    exact .inl rfl
  | finished active step =>
    obtain ⟨phase, world, console, -, hfinish⟩ := finish_eq _ _
    rw [hfinish]
    exact .inr rfl

/-- A run is active just while the session says so. -/
theorem running_iff (h : s.Change s') (hs : s.phase = .running ↔ ∃ run, s.run? = some run) :
    s'.phase = .running ↔ ∃ run, s'.run? = some run := by
  cases h with
  | rejected playable line =>
    exact iff_of_false (by simp [fresh, say]) (mt hs.mpr playable.not_running)
  | stopped => simp [say]
  | reset quiet => exact iff_of_false (by simp) (mt hs.mpr quiet)
  | cleared | told => exact hs
  | stepped active step =>
    obtain ⟨console, hnarrate⟩ := narrate_eq _ _
    rw [hnarrate]
    exact iff_of_true (hs.mpr ⟨_, active⟩) ⟨_, rfl⟩
  -- whatever phase an outcome leads to, it is another one than `running`
  | finished active step =>
    obtain ⟨phase, world, console, hphase, hfinish⟩ := finish_eq _ _
    rw [hfinish]
    exact iff_of_false hphase (by simp)

end Change

/-- A session stays on its level. -/
theorem level_after (l : Level) (ops : List Operation) : ((ofLevel l).after ops).level = l :=
  after_induction (P := (·.level = l)) (fun _ h => h) (fun hchange h => hchange.level_eq.trans h)
    rfl ops

/-- A run is active just while the session says so, whatever has been done. -/
theorem running_iff_after (l : Level) (ops : List Operation) :
    ((ofLevel l).after ops).phase = .running ↔ ∃ run, ((ofLevel l).after ops).run? = some run :=
  after_induction (P := fun s => s.phase = .running ↔ ∃ run, s.run? = some run)
    (fun _ _ => iff_of_true rfl ⟨_, rfl⟩) Change.running_iff (by simp [ofLevel]) ops

end Session

end RobotPuzzle
