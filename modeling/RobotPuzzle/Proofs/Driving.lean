import RobotPuzzle.Proofs.Operations

/-!
# All ways to drive a run

Whoever drives a run goes through the same steps of the session, whether one tick at a time, at
once, with an action of their own after each step, or on behalf of the run by its ticket. So all of
them see the same events and leave the same session, in which no run is active.

## Main definitions

* `Session.recording` — a pace that keeps a record of the events

## Main results

* `Session.run?_of_last_tick` — a tick without an event leaves no run
* `Session.tick_after_ticks` — the ticks of a session answer its events one by one
* `Session.tickAllFor_eq` — the ticket of the active run drives it to the same end
* `Session.runPaced_eq` — a paced run acts on the events of the ticks, whatever its actions do
* `drivers_agree` — all ways to drive a run come to the same
-/

namespace RobotPuzzle

namespace Session

variable {s s' : Session}

/-! ### Single ticks -/

/-- A tick without an event leaves no run: there was none, or it has ended. -/
theorem run?_of_last_tick (h : s.tick = (none, s')) : s'.run? = none := by
  cases hrun : s.run? with
  | none =>
    rw [tick_of_none hrun] at h
    obtain ⟨-, rfl⟩ := Prod.mk.inj h
    exact hrun
  | some run =>
    rcases hstep : (s.machine run).step with ⟨e | o, m⟩
    · rw [tick_of_applied hrun hstep] at h
      cases h
    · rw [tick_of_finished hrun hstep] at h
      obtain ⟨-, rfl⟩ := Prod.mk.inj h
      obtain ⟨phase, world, console, -, hfinish⟩ := finish_eq { s with world := m.world } o
      rw [hfinish]

/-- A tick with an event leaves the run active. -/
theorem ticket?_of_tick {e : Event} (h : s.tick = (some e, s')) : s'.ticket? = s.ticket? := by
  cases hrun : s.run? with
  | none =>
    rw [tick_of_none hrun] at h
    cases h
  | some run =>
    rcases hstep : (s.machine run).step with ⟨e | o, m⟩
    · rw [tick_of_applied hrun hstep] at h
      obtain ⟨-, rfl⟩ := Prod.mk.inj h
      rw [ticket?, ticket?, narrate_run?, hrun]
      rfl
    · rw [tick_of_finished hrun hstep] at h
      cases h

/-- Without a run, ticking does nothing. -/
theorem after_ticks_of_no_run (hrun : s.run? = none) (n : Nat) :
    s.after (List.replicate n .tick) = s := by
  induction n with
  | zero => rfl
  | succ n ih =>
    have htick : s.apply .tick = s := congrArg Prod.snd (tick_of_none hrun)
    rw [List.replicate_succ, after_cons, htick, ih]

/-- What holds as soon as it holds after the next event holds of every session. -/
theorem tick_induction {motive : Session → Prop}
    (last : ∀ s s', s.tick = (none, s') → motive s)
    (next : ∀ s e s', s.tick = (some e, s') → motive s' → motive s) (s : Session) : motive s := by
  induction s using pause_induction with
  | pause s ih =>
    rcases htick : s.tick with ⟨e?, s'⟩
    cases e? with
    | none => exact last s s' htick
    | some e => exact next s e s' htick (ih e s' [] htick)

/-! ### Ticking to the end -/

theorem run?_tickAll (s : Session) : s.tickAll.2.run? = none := by
  induction s using tick_induction with
  | last s s' htick =>
    rw [tickAll_of_none htick]
    exact run?_of_last_tick htick
  | next s e s' htick ih =>
    rw [tickAll_of_some htick]
    exact ih

/-- The ticks of a session answer its events one by one, and then nothing. -/
theorem tick_after_ticks (s : Session) (n : Nat) :
    (s.after (List.replicate n .tick)).tick.1 = s.tickAll.1[n]? := by
  induction s using tick_induction generalizing n with
  | last s s' htick =>
    rw [tickAll_of_none htick]
    cases n with
    | zero => exact congrArg Prod.fst htick
    | succ n =>
      have happly : s.apply .tick = s' := congrArg Prod.snd htick
      have hrun := run?_of_last_tick htick
      -- the last tick has taken the run away, so the ticks behind it come to nothing
      rw [List.replicate_succ, after_cons, happly, after_ticks_of_no_run hrun, tick_of_none hrun]
      rfl
  | next s e s' htick ih =>
    rw [tickAll_of_some htick]
    cases n with
    | zero => exact congrArg Prod.fst htick
    | succ n =>
      have happly : s.apply .tick = s' := congrArg Prod.snd htick
      rw [List.replicate_succ, after_cons, happly, ih, List.getElem?_cons_succ]

/-- After a tick more than there are events, all is over. -/
theorem after_ticks (s : Session) {n : Nat} (h : s.tickAll.1.length < n) :
    s.after (List.replicate n .tick) = s.tickAll.2 := by
  induction s using tick_induction generalizing n with
  | last s s' htick =>
    rw [tickAll_of_none htick] at h ⊢
    obtain ⟨n, rfl⟩ := Nat.exists_eq_succ_of_ne_zero (Nat.ne_of_gt h)
    have happly : s.apply .tick = s' := congrArg Prod.snd htick
    rw [Nat.succ_eq_add_one, List.replicate_succ, after_cons, happly,
      after_ticks_of_no_run (run?_of_last_tick htick)]
  | next s e s' htick ih =>
    rw [tickAll_of_some htick] at h ⊢
    cases n with
    | zero => cases h
    | succ n =>
      have happly : s.apply .tick = s' := congrArg Prod.snd htick
      rw [List.replicate_succ, after_cons, happly]
      exact ih (Nat.lt_of_succ_lt_succ h)

theorem runToCompletion_eq (s : Session) :
    s.runToCompletion = (s.tickAll.2.lastOutcome, s.tickAll.2) := by
  induction s using tick_induction with
  | last s s' htick => rw [runToCompletion_of_none htick, tickAll_of_none htick]
  | next s e s' htick ih => rw [runToCompletion_of_some htick, tickAll_of_some htick, ih]

/-- The ticket of the active run drives it to the same end. -/
theorem tickAllFor_eq {t : Ticket} (ht : s.ticket? = some t) : s.tickAllFor t = s.tickAll := by
  induction s using tick_induction with
  | last s s' htick =>
    have htickFor : s.tickFor t = (none, s') := by rw [tickFor, if_pos ht, htick]
    rw [tickAllFor_of_none htickFor, tickAll_of_none htick]
  | next s e s' htick ih =>
    have htickFor : s.tickFor t = (some e, s') := by rw [tickFor, if_pos ht, htick]
    -- the run is still the one that the ticket names
    have ht' : s'.ticket? = some t := (ticket?_of_tick htick).trans ht
    rw [tickAllFor_of_some htickFor, tickAll_of_some htick, ih ht']

/-! ### Paced runs -/

/-- A paced run acts on the events of the ticks in their order, whatever its actions do. -/
theorem runPaced_eq {m : Type → Type} [Monad m] [LawfulMonad m] (pace : Event → m Unit)
    (s : Session) :
    s.runPaced pace =
      forM s.tickAll.1 pace >>= fun _ => pure (s.tickAll.2.lastOutcome, s.tickAll.2) := by
  unfold runPaced
  induction s using tick_induction with
  | last s s' htick =>
    rw [runAwaiting_of_none htick, tickAll_of_none htick]
    simp
  | next s e s' htick ih =>
    rw [runAwaiting_of_some htick, tickAll_of_some htick]
    -- the pace acts between two ticks, and only the laws of a monad tell that nothing is lost
    simp only [bind_assoc, pure_bind, List.forM_cons]
    exact bind_congr fun _ => ih

/-- A pace that adds each event to the record. -/
def recording (e : Event) : StateM (List Event) Unit := modify (· ++ [e])

theorem forM_recording (events before : List Event) :
    (forM events recording).run before = ((), before ++ events) := by
  induction events generalizing before with
  | nil => exact congrArg (Prod.mk ()) (List.append_nil before).symm
  | cons e events ih =>
    have hrest := ih (before ++ [e])
    rw [List.append_assoc] at hrest
    exact hrest

theorem runPaced_recording (s : Session) (before : List Event) :
    (s.runPaced recording).run before =
      ((s.tickAll.2.lastOutcome, s.tickAll.2), before ++ s.tickAll.1) := by
  rw [runPaced_eq, StateT.run_bind, forM_recording]
  rfl

end Session

open Session

/-- All ways to drive a run agree. Ticking until there is no event, running to completion, a paced
run that does nothing in between, one that keeps a record, and ticking by the ticket of the active
run leave the same session, in which no run is active. The ticks answer the events that are
recorded, in their order, and running answers the outcome. A tick answers no event only if no run is
active after it. -/
theorem drivers_agree (s : Session) :
    (∀ n, (s.after (List.replicate n .tick)).tick.1 = s.tickAll.1[n]?) ∧
      (∀ n, s.tickAll.1.length < n → s.after (List.replicate n .tick) = s.tickAll.2) ∧
      s.runToCompletion = (s.tickAll.2.lastOutcome, s.tickAll.2) ∧
      (s.runPaced (m := Id) fun _ => pure ()).run = (s.tickAll.2.lastOutcome, s.tickAll.2) ∧
      (∀ before, (s.runPaced recording).run before =
        ((s.tickAll.2.lastOutcome, s.tickAll.2), before ++ s.tickAll.1)) ∧
      (∀ t, s.ticket? = some t → s.tickAllFor t = s.tickAll) ∧
      s.tickAll.2.run? = none ∧ ∀ s' : Session, s'.tick.1 = none → s'.tick.2.run? = none := by
  refine ⟨tick_after_ticks s, fun n => after_ticks s, runToCompletion_eq s, ?_,
    runPaced_recording s, fun t => tickAllFor_eq, run?_tickAll s, fun s' h => ?_⟩
  · rw [runPaced_eq]
    rfl
  · exact run?_of_last_tick (Prod.ext h rfl)

/-- A run of three steps, and the same run cancelled. -/
theorem drivers_agree_three_steps :
    let s := (ofLevel Level.phaseOne).after [.start "forward 2 collect"]
    let stopped := s.cancelTicket 0
    s.ticket? = some 0 ∧ s.tickAll.1.length = 3 ∧
      (s.tickAll.1.length < 4 ∧ s.after (List.replicate 4 .tick) = s.tickAll.2) ∧
      s.tickAllFor 0 = s.tickAll ∧
      (s.runPaced recording).run [] = (s.runToCompletion, s.tickAll.1) ∧
      stopped.ticket? = some 0 ∧ stopped.tickAllFor 0 = stopped.tickAll ∧
      stopped.tick.1 = none ∧ stopped.tick.2.run? = none := by
  intro s stopped
  have hticket : s.ticket? = some 0 := by decide +kernel
  have hlength : s.tickAll.1.length = 3 := by decide +kernel
  have hstopped : stopped.ticket? = some 0 := by decide +kernel
  have hnone : stopped.tick.1 = none := by decide +kernel
  have hless : s.tickAll.1.length < 4 := by omega
  obtain ⟨-, hticks, hrun, -, hrecorded, hfor, -⟩ := drivers_agree s
  obtain ⟨-, -, -, -, -, hforStopped, -, hlast⟩ := drivers_agree stopped
  refine ⟨hticket, hlength, ⟨hless, hticks 4 hless⟩, hfor 0 hticket, ?_, hstopped,
    hforStopped 0 hstopped, hnone, hlast stopped hnone⟩
  rw [hrun, hrecorded []]
  rfl

end RobotPuzzle
