import RobotPuzzle.Proofs.Accepted
import RobotPuzzle.Session.Drive

/-!
# Sessions stay consistent

A session keeps its phase, its active run, the outcome of the last run and the world in separate
places, and every operation changes some of them. Whatever is done with a session, and in which
order, the places tell the same story: a run is active just while the session says so and can
always pay for what it has still to do, so that no run ever meets a fault.

## Main definitions

* `Session.Operation`, `Session.apply`, `Session.after` — what can be done with a session
* `Session.Coherent` — phase, run, outcome and world tell the same story
* `Session.Consistent` — what a session promises to whoever looks at it
* `Session.Sound` — the invariant, in which the active run is funded

## Main results

* `Session.pause_induction` — a session, by its next event and the pause behind it
* `Session.Sound.tick` — one step keeps the invariant
* `Session.Sound.apply` — so does every operation
* `consistent_after` — a session is consistent after any sequence of operations
-/

namespace RobotPuzzle

namespace Session

/-- What can be done with a session. During the pauses of an awaited run, which may keep a state
of their own, runs can be cancelled; a paced run is one whose pauses cancel nothing. -/
inductive Operation : Type 1
  | start (source : String)
  | cancel
  | reset
  | clear
  | tick
  | tickFor (t : Ticket)
  | runToCompletion
  | runAwaiting {σ : Type} (wait : Event → StateM σ (List Ticket)) (before : σ)
  | cancelTicket (t : Ticket)

/-- The session after an operation. -/
def apply (s : Session) : Operation → Session
  | .start source => (s.start source).2
  | .cancel => s.cancel.2
  | .reset => s.reset.2
  | .clear => s.clear
  | .tick => s.tick.2
  | .tickFor t => (s.tickFor t).2
  | .runToCompletion => s.runToCompletion.2
  | .runAwaiting wait before => ((s.runAwaiting wait).run before).1.2
  | .cancelTicket t => s.cancelTicket t

/-- The session after several operations. -/
def after (s : Session) (ops : List Operation) : Session := ops.foldl apply s

/-- Phase, active run, last outcome and world tell the same story. -/
structure Coherent (s : Session) : Prop where
  running_iff : s.phase = .running ↔ ∃ run, s.run? = some run
  no_outcome : s.phase = .running → s.lastOutcome = none
  not_blocked : s.phase ≠ .blocked
  not_failed : ∀ f, s.lastOutcome ≠ some (.failed f)
  won : s.phase = .won → s.lastOutcome = some .completed ∧ s.world.Won

/-- What a session promises to whoever looks at it. -/
structure Consistent (s : Session) : Prop extends Coherent s where
  unfinished : ∀ run, s.run? = some run → run.executor.isFinished = false
  inside : s.world.grid.Contains s.world.robot.cell
  not_walled : ¬ s.world.grid.Walled s.world.robot.cell

/-- The invariant of a session. The active run can pay for the longest way through what it has
still to do, and the level allows the same of the next run. -/
structure Sound (s : Session) : Prop extends Coherent s where
  funded : ∀ run, s.run? = some run → (s.machine run).Funded
  standing : s.world.Standing
  affordable : s.level.budget < counterLimit

variable {s : Session}

theorem Sound.consistent (h : s.Sound) : s.Consistent where
  toCoherent := h.toCoherent
  unfinished := by
    intro run hrun
    have houtcome : run.executor.outcome? = none := (h.funded run hrun).unfinished
    rw [Executor.isFinished, houtcome]
    rfl
  inside := h.standing.robot.1
  not_walled := h.standing.robot.2

/-- A session without a run, won or not. -/
theorem Sound.of_no_run (hrun : s.run? = none)
    (hphase : s.phase = .idle ∨ s.phase = .won ∧ s.lastOutcome = some .completed ∧ s.world.Won)
    (hnot_failed : ∀ f, s.lastOutcome ≠ some (.failed f)) (hstanding : s.world.Standing)
    (haffordable : s.level.budget < counterLimit) : s.Sound := by
  have hcoherent : s.Coherent := by
    rcases hphase with hidle | ⟨hphase, hwon⟩
    · exact ⟨by simp [hidle, hrun], by simp [hidle], by simp [hidle], hnot_failed, by simp [hidle]⟩
    · exact ⟨by simp [hphase, hrun], by simp [hphase], by simp [hphase], hnot_failed,
        fun _ => hwon⟩
  have hfunded : ∀ run, s.run? = some run → (s.machine run).Funded := by simp [hrun]
  exact ⟨hcoherent, hfunded, hstanding, haffordable⟩

theorem Sound.ofLevel {l : Level} (hbudget : l.budget < counterLimit) : (ofLevel l).Sound :=
  .of_no_run rfl (.inl rfl) (fun _ => nofun) l.standing_world hbudget

/-- A session that is not running has no run. -/
theorem Sound.run?_eq_none (h : s.Sound) (hphase : s.phase ≠ .running) : s.run? = none := by
  cases hrun : s.run? with
  | none => rfl
  | some run => exact absurd (h.running_iff.mpr ⟨run, hrun⟩) hphase

/-! ### What is only said or noted -/

theorem Sound.say (h : s.Sound) (line : String) : (s.say line).Sound :=
  { h with }

theorem Sound.narrate (h : s.Sound) (e : Event) : (s.narrate e).Sound := by
  unfold Session.narrate
  split
  · exact h.say _
  · exact h

theorem Sound.clear (h : s.Sound) : s.clear.Sound := { h with }

/-- Cancelling a run changes nothing but what its next step will find. -/
theorem Sound.cancelTicket (h : s.Sound) (t : Ticket) : (s.cancelTicket t).Sound :=
  { h with
    funded := fun run hrun =>
      have hfunded := h.funded run hrun
      ⟨hfunded.unfinished, hfunded.standing, hfunded.funds⟩ }

theorem Sound.cancelTickets (h : s.Sound) (ts : List Ticket) : (s.cancelTickets ts).Sound := by
  induction ts generalizing s with
  | nil => exact h
  | cons t ts ih => exact ih (h.cancelTicket t)

/-! ### The player's operations -/

/-- A run whose program was accepted is funded from the beginning. -/
theorem Sound.launch {source : String} {commands : List Command} (h : s.Sound)
    (houtcome : s.lastOutcome = none) (hparse : parse source s.level.budget = .ok commands) :
    (s.launch commands).Sound := by
  obtain ⟨hbound, hcost⟩ := boundOf_le_of_parse h.affordable hparse
  refine ⟨⟨?_, fun _ => houtcome, nofun, h.not_failed, nofun⟩, ?_, h.standing, h.affordable⟩
  · exact ⟨fun _ => ⟨_, rfl⟩, fun _ => rfl⟩
  · rintro run ⟨⟩
    refine ⟨rfl, h.standing, ?_⟩
    simp only [Session.machine, Executor.ofCommands]
    omega

theorem Sound.start (h : s.Sound) (source : String) : (s.start source).2.Sound := by
  unfold Session.start
  cases hphase : s.phase with
  | running => exact h
  | won => exact h
  | blocked => exact absurd hphase h.not_blocked
  | idle =>
    -- resetting comes first, also for a program that is then refused
    have hrun : s.run? = none := h.run?_eq_none (by simp [hphase])
    have hfresh :
        ({ s with world := s.world.reset, phase := .idle, lastOutcome := none } : Session).Sound :=
      .of_no_run hrun (.inl rfl) (fun _ => nofun) h.standing.reset h.affordable
    cases hparse : parse source s.level.budget with
    | error e => exact hfresh.say _
    | ok commands => exact hfresh.launch rfl hparse

theorem Sound.cancel (h : s.Sound) : s.cancel.2.Sound := by
  unfold Session.cancel
  split
  · exact h
  · exact .of_no_run rfl (.inl rfl) (fun _ => nofun) h.standing.reset h.affordable

theorem Sound.reset (h : s.Sound) : s.reset.2.Sound := by
  unfold Session.reset
  split
  · exact h
  · next hphase =>
    exact .of_no_run (h.run?_eq_none hphase) (.inl rfl) h.not_failed h.standing.reset h.affordable

/-! ### Steps and runs -/

/-- A run that ends without a fault leaves a sound session, won or not. -/
theorem Sound.finish (h : s.Sound) (o : Outcome) (ho : ∀ f, o ≠ .failed f) :
    (s.finish o).Sound := by
  cases o with
  | failed f => exact absurd rfl (ho f)
  | cancelled => exact .of_no_run rfl (.inl rfl) (fun _ => nofun) h.standing.reset h.affordable
  | completed =>
    unfold Session.finish
    by_cases hwon : s.world.Won
    · simp only [if_pos hwon]
      exact .of_no_run rfl (.inr ⟨rfl, rfl, hwon⟩) (fun _ => nofun) h.standing h.affordable
    · simp only [if_neg hwon]
      exact .of_no_run rfl (.inl rfl) (fun _ => nofun) h.standing h.affordable

/-- A session whose active run has taken a step. -/
theorem Sound.of_step (h : s.Sound) {run : ActiveRun} {m : Machine} (hrun : s.run? = some run)
    (hfunded : m.Funded)
    (hcontext : m.context =
      { (s.machine run).context with count := (s.machine run).context.count + 1 }) :
    ({ s with
        world := m.world
        run? := some { run with executor := m.executor, count := m.context.count } } :
      Session).Sound where
  running_iff := ⟨fun _ => ⟨_, rfl⟩, fun _ => h.running_iff.mpr ⟨run, hrun⟩⟩
  funded := by
    rintro next ⟨⟩
    refine ⟨hfunded.unfinished, hfunded.standing, ?_⟩
    have hfunds := hfunded.funds
    rwa [hcontext] at hfunds ⊢
  no_outcome := h.no_outcome
  not_blocked := h.not_blocked
  not_failed := h.not_failed
  won := by
    -- a step changes no phase, and the session was running before it
    intro hphase
    have hrunning : s.phase = .running := h.running_iff.mpr ⟨run, hrun⟩
    simp [hrunning] at hphase
  standing := hfunded.standing
  affordable := h.affordable

/-- A step of the active run, which the run has paid for, or its end. -/
theorem Sound.tick (h : s.Sound) : s.tick.2.Sound := by
  cases hrun : s.run? with
  | none =>
    rw [tick_of_none hrun]
    exact h
  | some run =>
    rcases (h.funded run hrun).step with ⟨e, m, hstep, hfunded, -, hcontext⟩ | hstep | ⟨-, hstep⟩
    · rw [tick_of_applied hrun hstep]
      exact (h.of_step hrun hfunded hcontext).narrate e
    · rw [tick_of_finished hrun hstep]
      exact h.finish .completed (fun _ => nofun)
    · rw [tick_of_finished hrun hstep]
      exact h.finish .cancelled (fun _ => nofun)

theorem Sound.tickFor (h : s.Sound) (t : Ticket) : (s.tickFor t).2.Sound := by
  unfold Session.tickFor
  split
  · exact h.tick
  · exact h

theorem Sound.runToCompletion (h : s.Sound) : s.runToCompletion.2.Sound := by
  fun_induction Session.runToCompletion s with
  | case1 s s' htick =>
    have hlast := h.tick
    rwa [htick] at hlast
  | case2 s e s' htick ih =>
    have hnext := h.tick
    rw [htick] at hnext
    exact ih hnext

/-- What holds of a session as soon as it holds after the next event and the cancellations in the
pause behind it, holds of every session: each event uses up a step. -/
theorem pause_induction {motive : Session → Prop}
    (pause : ∀ s, (∀ e s' ts, s.tick = (some e, s') → motive (s'.cancelTickets ts)) → motive s)
    (s : Session) : motive s := by
  induction hn : s.remaining using Nat.strongRecOn generalizing s with
  | _ n ih =>
    subst hn
    refine pause s fun e s' ts htick => ih _ ?_ _ rfl
    rw [remaining_cancelTickets]
    exact remaining_tick htick

/-- An awaited run stays sound through its pauses, whatever is cancelled in them. -/
theorem Sound.runAwaiting {σ : Type} (h : s.Sound) (wait : Event → StateM σ (List Ticket))
    (before : σ) : ((s.runAwaiting wait).run before).1.2.Sound := by
  induction s using pause_induction generalizing before with
  | pause s ih =>
    have hnext := h.tick
    rcases htick : s.tick with ⟨e?, s'⟩
    rw [htick] at hnext
    cases e? with
    | none =>
      rw [runAwaiting_of_none htick]
      exact hnext
    | some e =>
      rw [runAwaiting_of_some htick]
      have hpaused := hnext.cancelTickets (wait e before).1
      exact ih e s' (wait e before).1 htick hpaused (wait e before).2

theorem Sound.apply (h : s.Sound) (op : Operation) : (s.apply op).Sound := by
  cases op with
  | start source => exact h.start source
  | cancel => exact h.cancel
  | reset => exact h.reset
  | clear => exact h.clear
  | tick => exact h.tick
  | tickFor t => exact h.tickFor t
  | runToCompletion => exact h.runToCompletion
  | runAwaiting wait before => exact h.runAwaiting wait before
  | cancelTicket t => exact h.cancelTicket t

theorem Sound.after (h : s.Sound) (ops : List Operation) : (s.after ops).Sound := by
  induction ops generalizing s with
  | nil => exact h
  | cons op ops ih => exact ih (h.apply op)

end Session

open Session

/-- Whatever is done with a session, and in which order, it stays consistent, if the counter can
tell the budget of its level from its own limit. -/
theorem consistent_after {l : Level} (hbudget : l.budget < counterLimit) (ops : List Operation) :
    ((ofLevel l).after ops).Consistent :=
  ((Sound.ofLevel hbudget).after ops).consistent

/-- A run that is cancelled in the pause after its second step, and then one that wins. -/
theorem consistent_after_pauses :
    let second : Event → StateM Nat (List Ticket) := fun _ => do
      modify (· + 1)
      pure (if (← get) = 2 then [0] else [])
    let ops : List Operation :=
      [.start "forward 3", .start "left", .runAwaiting second 0, .start "forward 9 collect",
        .tickFor 0, .tickFor 1, .cancelTicket 0, .runToCompletion, .clear, .start "right"]
    Level.phaseOne.budget < counterLimit ∧ ((ofLevel Level.phaseOne).after ops).Consistent ∧
      ((ofLevel Level.phaseOne).after ops).phase = .won := by
  intro second ops
  have hbudget : Level.phaseOne.budget < counterLimit := by decide
  exact ⟨hbudget, consistent_after hbudget ops, by decide +kernel⟩

end RobotPuzzle
