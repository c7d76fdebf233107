import RobotPuzzle.Proofs.Operations
import RobotPuzzle.Proofs.Restoring

/-!
# Runs do not depend on what was before

A session that has seen other runs numbers the next one higher, remembers which of the others were
cancelled and has lines in its console already. All this stands behind a run like a backdrop: the
run goes on in front of it just as it would in a new session. As starting a program also puts the
level back, a run is the same whatever was done with its session before.

## Main definitions

* `Backdrop`, `Session.against` — what there is beside a run, and a session in front of it
* `Backdrop.Spares` — a backdrop does not interfere with a run
* `Session.Control` — what can be done about a run that was started

## Main results

* `Session.tick_against` — a run takes its steps in front of a backdrop as without one
* `Session.start_against` — starting a program after anything else is starting it in a new session
* `start_independent_of_history` — two sessions of a level answer and show the same from there on
-/

namespace RobotPuzzle

/-- What there is beside a run: the runs that were numbered before it, what is known of their
cancellations beside its own, and what the console has said. -/
structure Backdrop where
  earlier : Nat
  flags : List Bool → List Bool
  lines : List String

/-- A backdrop neither hides nor feigns the cancellation of a run. -/
structure Backdrop.Spares (b : Backdrop) (t : Ticket) : Prop where
  getD_eq : ∀ flags : List Bool, (b.flags flags).getD (b.earlier + t) false = flags.getD t false
  set_eq : ∀ flags : List Bool,
    (b.flags flags).set (b.earlier + t) true = b.flags (flags.set t true)

namespace Session

/-- A session in front of a backdrop. -/
def against (s : Session) (b : Backdrop) : Session :=
  { s with
    run? := s.run?.map fun run => { run with ticket := b.earlier + run.ticket }
    console := b.lines ++ s.console
    cancelled := b.flags s.cancelled }

variable {s : Session} {b : Backdrop}

theorem ticket?_against (s : Session) (b : Backdrop) :
    (s.against b).ticket? = s.ticket?.map (b.earlier + ·) := by
  simp only [ticket?, against, Option.map_map]
  rfl

theorem say_against (s : Session) (b : Backdrop) (line : String) :
    (s.against b).say line = (s.say line).against b := by
  simp [say, against]

theorem narrate_against (s : Session) (b : Backdrop) (e : Event) :
    (s.against b).narrate e = (s.narrate e).against b := by
  have hworld : (s.against b).world = s.world := rfl
  unfold narrate
  rw [hworld]
  split
  · exact say_against s b _
  · rfl

theorem finish_against (s : Session) (b : Backdrop) (o : Outcome) :
    (s.against b).finish o = (s.finish o).against b := by
  have hworld : (s.against b).world = s.world := rfl
  cases o with
  | completed =>
    simp only [finish, hworld]
    split
    · exact say_against { s with run? := none, lastOutcome := some .completed, phase := .won } b _
    · rfl
  | cancelled =>
    exact say_against
      { s with
        world := s.world.reset
        run? := none
        lastOutcome := some .cancelled
        phase := .idle } b _
  | failed f => rfl

/-- The machine of a run does not see the backdrop. -/
theorem machine_against {run : ActiveRun} (h : b.Spares run.ticket) :
    (s.against b).machine { run with ticket := b.earlier + run.ticket } = s.machine run := by
  have hcancelled : (s.against b).isCancelled (b.earlier + run.ticket) = s.isCancelled run.ticket :=
    h.getD_eq s.cancelled
  simp only [machine, hcancelled]
  rfl

/-- A run takes its steps in front of a backdrop as without one. -/
theorem tick_against (h : ∀ run, s.run? = some run → b.Spares run.ticket) :
    (s.against b).tick = (s.tick.1, s.tick.2.against b) := by
  cases hrun : s.run? with
  | none =>
    have hnone : (s.against b).run? = none := by simp [against, hrun]
    rw [tick_of_none hrun, tick_of_none hnone]
  | some run =>
    have hsome : (s.against b).run? = some { run with ticket := b.earlier + run.ticket } := by
      simp [against, hrun]
    have hmachine := machine_against (s := s) (h run hrun)
    rcases hstep : (s.machine run).step with ⟨e | o, m⟩
    · rw [tick_of_applied hrun hstep, tick_of_applied hsome (hmachine ▸ hstep),
        ← narrate_against]
      rfl
    · rw [tick_of_finished hrun hstep, tick_of_finished hsome (hmachine ▸ hstep),
        ← finish_against]
      rfl

theorem tickFor_against (h : ∀ run, s.run? = some run → b.Spares run.ticket) (t : Ticket) :
    (s.against b).tickFor (b.earlier + t) = ((s.tickFor t).1, (s.tickFor t).2.against b) := by
  have hticket : (s.against b).ticket? = some (b.earlier + t) ↔ s.ticket? = some t := by
    rw [ticket?_against]
    cases s.ticket? <;> simp
  unfold tickFor
  by_cases ht : s.ticket? = some t
  · rw [if_pos ht, if_pos (hticket.mpr ht), tick_against h]
  · rw [if_neg ht, if_neg (mt hticket.mp ht)]

theorem cancelTicket_against {t : Ticket} (h : b.Spares t) :
    (s.against b).cancelTicket (b.earlier + t) = (s.cancelTicket t).against b := by
  simp only [cancelTicket, against, h.set_eq]

theorem cancel_against (h : ∀ run, s.run? = some run → b.Spares run.ticket) :
    (s.against b).cancel = (s.cancel.1, s.cancel.2.against b) := by
  cases hrun : s.run? with
  | none => simp [cancel, against, hrun]
  | some run =>
    have hset := (h run hrun).set_eq s.cancelled
    simp [cancel, against, cancelTicket, say, hrun, hset]

/-! ### Whoever looks after a run -/

/-- What can be done about a run that was started: a step of the active run or of this one, and
cancelling this one or the active one. -/
inductive Control | tick | tickFor | cancelTicket | cancel
  deriving DecidableEq, Repr

/-- The operation on the session, with the ticket of the run. -/
def Control.operation (t : Ticket) : Control → Operation
  | .tick => .tick
  | .tickFor => .tickFor t
  | .cancelTicket => .cancelTicket t
  | .cancel => .cancel

/-- A run is controlled in front of a backdrop as without one. -/
theorem control_against (h : ∀ t, b.Spares t) (s : Session) (t : Ticket) (c : Control) :
    (s.against b).answer (c.operation (b.earlier + t)) = s.answer (c.operation t) ∧
      (s.against b).apply (c.operation (b.earlier + t)) = (s.apply (c.operation t)).against b := by
  have hrun : ∀ run, s.run? = some run → b.Spares run.ticket := fun run _ => h run.ticket
  cases c with
  | tick => simp only [Control.operation, answer, apply, tick_against hrun, and_self]
  | tickFor => simp only [Control.operation, answer, apply, tickFor_against hrun, and_self]
  | cancelTicket => exact ⟨rfl, cancelTicket_against (h t)⟩
  | cancel => simp only [Control.operation, answer, apply, cancel_against hrun, and_self]

theorem controls_against (h : ∀ t, b.Spares t) (s : Session) (t : Ticket) (cs : List Control) :
    (s.against b).after (cs.map (Control.operation (b.earlier + t))) =
      (s.after (cs.map (Control.operation t))).against b := by
  induction cs generalizing s with
  | nil => rfl
  | cons c cs ih =>
    rw [List.map_cons, List.map_cons, after_cons, after_cons, (control_against h s t c).2]
    exact ih _

/-! ### Starting in front of a past -/

/-- What a session has behind it. -/
def past (s : Session) : Backdrop where
  earlier := s.cancelled.length
  flags := (s.cancelled ++ ·)
  lines := s.console

theorem spares_past (s : Session) (t : Ticket) : s.past.Spares t where
  getD_eq flags := by
    simp [past, List.getD_eq_getElem?_getD, List.getElem?_append_right]
  set_eq flags := by
    simp [past, List.set_append_right]

/-- Once the level is put back, a session is a new one in front of its past. -/
theorem fresh_eq_against {l : Level} (hlevel : s.level = l) (hworld : s.world.reset = l.world)
    (hrun : s.run? = none) : s.fresh = (ofLevel l).against s.past := by
  simp [fresh, against, past, ofLevel, hlevel, hworld, hrun]

theorem launch_against_past (s new : Session) (commands : List Command) :
    (new.against s.past).launch commands = (new.launch commands).against s.past := by
  simp [launch, against, past]

/-- Starting a program after anything else is starting it in a new session. -/
theorem start_against (l : Level) (ops : List Operation) (source : String) :
    let s := (ofLevel l).after ops
    let new := (ofLevel l).start source
    s.Playable → s.start source = (new.1, new.2.against s.past) := by
  intro s new hplayable
  have hlevel : s.level = l := level_after l ops
  have hrun : s.run? = none :=
    Option.eq_none_iff_forall_ne_some.mpr fun run hrun =>
      hplayable.not_running ((running_iff_after l ops).mpr ⟨run, hrun⟩)
  have hfresh : s.fresh = (ofLevel l).against s.past :=
    fresh_eq_against hlevel (reset_world_of_level l ops) hrun
  -- nothing has happened in a new session, so putting its level back does nothing
  have hnew : (ofLevel l).fresh = ofLevel l := by
    simp [fresh, ofLevel, l.reset_world]
  have hnewPlayable : (ofLevel l).Playable := ⟨by simp [ofLevel], by simp [ofLevel]⟩
  cases hparse : parse source l.budget with
  | error e =>
    have hstart : new = (.error (.program e), _) := start_of_error hnewPlayable hparse
    rw [start_of_error hplayable (hlevel ▸ hparse), hstart, hfresh, hnew, say_against]
  | ok commands =>
    have hstart : new = (.ok (), _) := start_of_ok hnewPlayable hparse
    rw [start_of_ok hplayable (hlevel ▸ hparse), hstart, hfresh, hnew, launch_against_past]

end Session

open Session

/-- Whatever was done with two sessions of a level before, starting a program in them comes to the
same. If it is accepted, then for whatever is done about the new run the two give the same answers
and show the same phase, last outcome and world, and they write the same lines. -/
theorem start_independent_of_history (l : Level) (before₁ before₂ : List Operation)
    (source : String) :
    let s₁ := (ofLevel l).after before₁
    let s₂ := (ofLevel l).after before₂
    s₁.Playable → s₂.Playable →
      (s₁.start source).1 = (s₂.start source).1 ∧
        ((s₁.start source).1 = .ok () →
          ∃ t₁ t₂, (s₁.start source).2.ticket? = some t₁ ∧ (s₂.start source).2.ticket? = some t₂ ∧
            ∀ schedule : List Control,
              let now₁ := (s₁.start source).2.after (schedule.map (Control.operation t₁))
              let now₂ := (s₂.start source).2.after (schedule.map (Control.operation t₂))
              (∀ c : Control, now₁.answer (c.operation t₁) = now₂.answer (c.operation t₂)) ∧
                now₁.phase = now₂.phase ∧ now₁.lastOutcome = now₂.lastOutcome ∧
                now₁.world = now₂.world ∧
                ∃ lines, now₁.console = s₁.console ++ lines ∧
                  now₂.console = s₂.console ++ lines) := by
  intro s₁ s₂ h₁ h₂
  have hstart₁ := start_against l before₁ source h₁
  have hstart₂ := start_against l before₂ source h₂
  rw [hstart₁, hstart₂]
  refine ⟨rfl, fun hok => ?_⟩
  -- the run of the new session has the first ticket of all
  have hticket : ((ofLevel l).start source).2.ticket? = some 0 := by
    obtain ⟨commands, -, hlaunch⟩ := start_of_accepted hok
    rw [hlaunch]
    rfl
  refine ⟨s₁.past.earlier + 0, s₂.past.earlier + 0, ?_, ?_, fun schedule => ?_⟩
  · rw [ticket?_against, hticket]
    rfl
  · rw [ticket?_against, hticket]
    rfl
  · intro now₁ now₂
    let new := ((ofLevel l).start source).2.after (schedule.map (Control.operation 0))
    have hnow₁ : now₁ = new.against s₁.past := controls_against (spares_past s₁) _ 0 schedule
    have hnow₂ : now₂ = new.against s₂.past := controls_against (spares_past s₂) _ 0 schedule
    rw [hnow₁, hnow₂]
    refine ⟨fun c => ?_, rfl, rfl, rfl, new.console, rfl, rfl⟩
    exact (control_against (spares_past s₁) new 0 c).1.trans
      (control_against (spares_past s₂) new 0 c).1.symm

/-- A session in which one run was cancelled, another one put out the fire, a program was rejected
and the console was cleared goes on as a new one does. -/
theorem start_independent_of_history_after_mishaps :
    let l := Level.phaseOne
    let before : List Operation :=
      [.start "forward 3", .tick, .cancelTicket 0, .tick, .start "forward 5 extinguish",
        .runToCompletion, .start "jump", .clear, .cancelTicket 1]
    let source := "forward 9 collect"
    let s₁ := (ofLevel l).after before
    let s₂ := ofLevel l
    s₁.Playable ∧ s₂.Playable ∧ (s₁.start source).1 = .ok () ∧
      ∃ t₁ t₂, (s₁.start source).2.ticket? = some t₁ ∧ (s₂.start source).2.ticket? = some t₂ ∧
        ∀ schedule : List Control,
          let now₁ := (s₁.start source).2.after (schedule.map (Control.operation t₁))
          let now₂ := (s₂.start source).2.after (schedule.map (Control.operation t₂))
          (∀ c : Control, now₁.answer (c.operation t₁) = now₂.answer (c.operation t₂)) ∧
            now₁.phase = now₂.phase ∧ now₁.lastOutcome = now₂.lastOutcome ∧
            now₁.world = now₂.world ∧
            ∃ lines, now₁.console = s₁.console ++ lines ∧ now₂.console = s₂.console ++ lines := by
  intro l before source s₁ s₂
  have hplayable₁ : s₁.Playable := ⟨by decide +kernel, by decide +kernel⟩
  have hplayable₂ : s₂.Playable := ⟨by decide, by decide⟩
  have hok : (s₁.start source).1 = .ok () := by decide +kernel
  exact ⟨hplayable₁, hplayable₂, hok,
    (start_independent_of_history l before [] source hplayable₁ hplayable₂).2 hok⟩

end RobotPuzzle
