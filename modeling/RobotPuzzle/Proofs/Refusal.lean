import RobotPuzzle.Proofs.Transcript

/-!
# Refused operations

A session refuses to start a program while one is running or when its level is won, to reset the
level under a running program, and to drive or cancel a run that is not there. Whatever it refuses
leaves no trace: the refused operations can be struck out of any history, and the same runs report
the same events in it. A program that is rejected is another matter. It is read after the level was
put back, so of the session before it there remain the console, with one line more, and the
tickets.

## Main definitions

* `Session.Refuses` — what a session does not do
* `Session.granted` — operations without those that are refused when their turn comes

## Main results

* `Session.apply_of_refuses` — a refused operation changes and reports nothing
* `Session.after_granted`, `Session.reportedBy_granted` — nor does it matter to later operations
* `Session.start_eq_rejected_iff` — which programs are rejected
* `Session.start_of_rejected` — what a rejected program leaves
* `refused_operations_leave_no_trace` — all of this, whatever was done with the session
-/

namespace RobotPuzzle

namespace Session

variable {s : Session} {op : Operation} {ops : List Operation} {source : String} {q : Nat}
  {e : ProgramError}

/-- A session refuses an operation: it has no active run that the operation could be for, or its
phase forbids it. -/
def Refuses (s : Session) : Operation → Prop
  | .start _ => s.phase = .running ∨ s.phase = .won
  | .reset => s.phase = .running
  | .cancel | .tick | .runToCompletion | .runAwaiting .. => s.run? = none
  | .tickFor t => s.ticket? ≠ some t
  | .clear | .cancelTicket _ => False

instance (s : Session) (op : Operation) : Decidable (s.Refuses op) :=
  match op with
  | .start _ => inferInstanceAs (Decidable (s.phase = .running ∨ s.phase = .won))
  | .reset => inferInstanceAs (Decidable (s.phase = .running))
  | .cancel | .tick | .runToCompletion | .runAwaiting .. =>
    inferInstanceAs (Decidable (s.run? = none))
  | .tickFor t => inferInstanceAs (Decidable (s.ticket? ≠ some t))
  | .clear | .cancelTicket _ => inferInstanceAs (Decidable False)

/-- The operations that are not refused when their turn comes. -/
def granted (s : Session) : List Operation → List Operation
  | [] => []
  | op :: ops => if s.Refuses op then s.granted ops else op :: (s.apply op).granted ops

theorem granted_of_refuses (h : s.Refuses op) : s.granted (op :: ops) = s.granted ops := by
  rw [granted, if_pos h]

theorem granted_of_not_refuses (h : ¬ s.Refuses op) :
    s.granted (op :: ops) = op :: (s.apply op).granted ops := by
  rw [granted, if_neg h]

/-! ### One operation -/

/-- A refused operation changes and reports nothing. -/
theorem apply_of_refuses (h : s.Refuses op) : s.apply op = s ∧ s.reported op = [] := by
  cases op with
  | start source =>
    obtain hrunning | hwon := h
    · exact ⟨congrArg Prod.snd (start_of_running hrunning), rfl⟩
    · exact ⟨congrArg Prod.snd (start_of_won hwon), rfl⟩
  | reset => exact ⟨congrArg Prod.snd (reset_of_running h), rfl⟩
  | tickFor t =>
    -- also a run that is there is not driven by the ticket of another one
    have hother : s.tickFor t = (none, s) := if_neg h
    simp only [apply, reported, hother]
    exact ⟨trivial, rfl⟩
  | cancel | tick | runToCompletion | runAwaiting => exact apply_of_no_run h trivial
  | clear | cancelTicket => exact h.elim

/-! ### Histories -/

/-- A session comes to the same without the operations it refuses. -/
theorem after_granted (s : Session) (ops : List Operation) :
    s.after (s.granted ops) = s.after ops := by
  induction ops generalizing s with
  | nil => rfl
  | cons op ops ih =>
    by_cases hrefused : s.Refuses op
    · rw [granted_of_refuses hrefused, ih, after_cons, (apply_of_refuses hrefused).1]
    · rw [granted_of_not_refuses hrefused, after_cons, after_cons, ih]

/-- Runs report the same events without the operations that are refused. -/
theorem reportedBy_granted (s : Session) (ops : List Operation) :
    s.reportedBy (s.granted ops) = s.reportedBy ops := by
  induction ops generalizing s with
  | nil => rfl
  | cons op ops ih =>
    by_cases hrefused : s.Refuses op
    · obtain ⟨hsame, hevents⟩ := apply_of_refuses hrefused
      rw [granted_of_refuses hrefused, ih, reportedBy, hsame, hevents, List.nil_append]
    · rw [granted_of_not_refuses hrefused, reportedBy, reportedBy, ih]

theorem granted_sublist (s : Session) (ops : List Operation) : (s.granted ops).Sublist ops := by
  induction ops generalizing s with
  | nil => exact .slnil
  | cons op ops ih =>
    by_cases hrefused : s.Refuses op
    · rw [granted_of_refuses hrefused]
      exact .cons op (ih s)
    · rw [granted_of_not_refuses hrefused]
      exact .cons_cons op (ih (s.apply op))

theorem not_refuses_granted (s : Session) (ops : List Operation) (q : Nat) :
    ¬ s.HappensAt Refuses (s.granted ops) q := by
  induction ops generalizing s q with
  | nil => exact not_happensAt_nil
  | cons op ops ih =>
    by_cases hrefused : s.Refuses op
    · rw [granted_of_refuses hrefused]
      exact ih s q
    · rw [granted_of_not_refuses hrefused]
      exact forall_not_happensAt_cons.mpr ⟨hrefused, ih (s.apply op)⟩ q

/-! ### Rejected programs -/

/-- A program is rejected if the session could start one and this one cannot be read. -/
theorem start_eq_rejected_iff :
    (s.start source).1 = .error (.program e) ↔
      s.Playable ∧ parse source s.level.budget = .error e := by
  constructor
  · intro h
    by_cases hrunning : s.phase = .running
    · rw [start_of_running hrunning] at h
      cases h
    by_cases hwon : s.phase = .won
    · rw [start_of_won hwon] at h
      cases h
    have hplayable : s.Playable := ⟨hrunning, hwon⟩
    cases hparse : parse source s.level.budget with
    | error e' =>
      rw [start_of_error hplayable hparse] at h
      cases h
      exact ⟨hplayable, rfl⟩
    | ok commands =>
      rw [start_of_ok hplayable hparse] at h
      cases h
  · rintro ⟨hplayable, hparse⟩
    rw [start_of_error hplayable hparse]

/-- A rejected program leaves the session as it was at first, but for a line that follows what was
on the console, and for the tickets of earlier runs. -/
theorem start_of_rejected (l : Level) (ops : List Operation)
    (h : (((ofLevel l).after ops).start source).1 = .error (.program e)) :
    let now := (ofLevel l).after ops
    (now.start source).2 =
      { ofLevel l with
        console := now.console ++ ["Program rejected: " ++ e.message]
        cancelled := now.cancelled } := by
  intro now
  obtain ⟨hplayable, hparse⟩ := start_eq_rejected_iff.mp h
  have hidle : now.run? = none :=
    Option.eq_none_iff_forall_ne_some.mpr fun run hrun =>
      hplayable.not_running ((running_iff_after l ops).mpr ⟨run, hrun⟩)
  have hlevel : now.level = l := level_after l ops
  have hworld : now.world.reset = l.world := reset_world_of_level l ops
  rw [start_of_error hplayable hparse, fresh, say, hlevel, hworld, hidle]
  rfl

end Session

open Session

/-- Refused operations leave no trace. A running program makes a session refuse to start another
one or to reset the level, a victory makes it refuse to start one, and without an active run there
is nothing to cancel and nothing to step; all of them answer so, and the session stays as it is.
Therefore the operations that are refused can be struck out of whatever is done later: the session
comes to the same, and its runs report the same events. A program is rejected only in a session
that could start one. It leaves no run, the level as it was built, no outcome, and one line more on
the console. -/
theorem refused_operations_leave_no_trace (l : Level) (ops : List Operation) :
    let now := (ofLevel l).after ops
    (now.phase = .running → (∀ source, now.start source = (.error .alreadyRunning, now)) ∧
        now.reset = (.error .alreadyRunning, now)) ∧
      (now.phase = .won → ∀ source, now.start source = (.error .alreadyWon, now)) ∧
      (now.run? = none → now.cancel = (false, now) ∧ now.tick = (none, now) ∧
        ∀ t, now.tickFor t = (none, now)) ∧
      (now.phase = .running ↔ ∃ run, now.run? = some run) ∧
      (∀ later,
        let granted := now.granted later
        granted.Sublist later ∧ (∀ q, ¬ now.HappensAt Refuses granted q) ∧
          now.after granted = now.after later ∧
          now.reportedBy granted = now.reportedBy later) ∧
      ∀ source e,
        ((now.start source).1 = .error (.program e) ↔
          now.Playable ∧ parse source l.budget = .error e) ∧
        ((now.start source).1 = .error (.program e) →
          (now.start source).2 =
            { level := l
              world := l.world
              phase := .idle
              run? := none
              lastOutcome := none
              console := now.console ++ ["Program rejected: " ++ e.message]
              cancelled := now.cancelled }) := by
  intro now
  have hlevel : now.level = l := level_after l ops
  refine ⟨fun hrunning => ⟨fun source => start_of_running hrunning, reset_of_running hrunning⟩,
    fun hwon source => start_of_won hwon, fun hrun => ?idle, running_iff_after l ops,
    fun later => ?later, fun source e => ⟨?rejected, start_of_rejected l ops⟩⟩
  case idle =>
    have htick : now.tick = (none, now) := tick_of_none hrun
    refine ⟨by simp only [cancel, hrun], htick, fun t => ?_⟩
    rw [tickFor, htick, ite_self]
  case later =>
    exact ⟨granted_sublist now later, not_refuses_granted now later, after_granted now later,
      reportedBy_granted now later⟩
  case rejected =>
    rw [start_eq_rejected_iff, hlevel]

/-- A run that is disturbed in the middle of a stride and goes on to win, and a rejected program
after a run that went astray. -/
theorem refused_operations_leave_no_trace_mid_stride :
    let yard : Config :=
      { name := "Yard", gridSize := 3, budget := 8, start := ⟨⟨0, 0⟩, .east⟩, crystal := ⟨2, 0⟩ }
    let l : Level := ⟨yard, by decide⟩
    let ops : List Operation := [.start "forward 2 collect", .tick]
    let now := (ofLevel l).after ops
    let disturbed : List Operation := [.start "jump", .reset, .tickFor 7, .tick, .start "left",
      .tick, .tick, .tick, .cancel, .tickFor 0, .start "left"]
    let astray := (ofLevel l).after [.start "right forward 1", .tick, .tick, .tick]
    now.phase = .running ∧ now.start "jump" = (.error .alreadyRunning, now) ∧
      (now.granted disturbed).length = 3 ∧
      now.after (now.granted disturbed) = now.after disturbed ∧
      now.reportedBy (now.granted disturbed) = [.moved ⟨1, 0⟩ ⟨2, 0⟩ false, .collected ⟨2, 0⟩] ∧
      (now.after disturbed).phase = .won ∧
      (now.after disturbed).start "left" = (.error .alreadyWon, now.after disturbed) ∧
      (now.after disturbed).cancel = (false, now.after disturbed) ∧
      astray.world.robot.cell = ⟨0, 1⟩ ∧
      (astray.start "jump").2 =
        { ofLevel l with
          console :=
            ["Program rejected: line 1, column 1: I don't understand \x60jump\x60"]
          cancelled := [false] } := by
  intro yard l ops now disturbed astray
  have hrunning : now.phase = .running := by decide +kernel
  have hwon : (now.after disturbed).phase = .won := by decide +kernel
  have hover : (now.after disturbed).run? = none := by decide +kernel
  have hevents : now.reportedBy disturbed =
      [.moved ⟨1, 0⟩ ⟨2, 0⟩ false, .collected ⟨2, 0⟩] := by decide +kernel
  obtain ⟨hbusy, -, -, -, hlater, -⟩ := refused_operations_leave_no_trace l ops
  obtain ⟨-, -, hsame, hreported⟩ := hlater disturbed
  -- the same history, read as that of a level that is won
  obtain ⟨-, hvictory, hquiet, -⟩ := refused_operations_leave_no_trace l (ops ++ disturbed)
  rw [after_append] at hvictory hquiet
  obtain ⟨-, -, -, -, -, hreject⟩ :=
    refused_operations_leave_no_trace l [.start "right forward 1", .tick, .tick, .tick]
  obtain ⟨-, hrejected⟩ := hreject "jump" (.unrecognized "jump" ⟨1, 1⟩)
  have hconsole : astray.console ++ ["Program rejected: " ++
      (ProgramError.unrecognized "jump" ⟨1, 1⟩).message] =
        ["Program rejected: line 1, column 1: I don't understand \x60jump\x60"] := by
    decide +kernel
  have hcancelled : astray.cancelled = [false] := by decide +kernel
  refine ⟨hrunning, (hbusy hrunning).1 "jump", by decide +kernel, hsame, hreported.trans hevents,
    hwon, hvictory hwon "left", (hquiet hover).1, by decide +kernel, ?_⟩
  rw [hrejected (by decide +kernel), hconsole, hcancelled]
  rfl

end RobotPuzzle
