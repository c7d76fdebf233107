import RobotPuzzle.Proofs.Replay
import RobotPuzzle.Proofs.Tickets

/-!
# When a level is won

A level is won at the end of a completed run whose robot stands, with the crystal collected, in the
cell where the crystal lay. All of this can be read off the events of the run: the robot is where
they led it from its start, and the crystal is collected if one of them says so. Starting a program
puts the level back, so nothing of earlier runs counts: the last run that was launched decides,
until a reset takes the victory back.

## Main definitions

* `Cell.along` — where events lead a robot
* `Session.reported`, `Session.reportedBy` — the events that operations have the active run report
* `Session.Driven` — ticking until nothing is left to run, with pauses
* `Session.Progress` — what driving a run can come to
* `Session.Ends`, `Session.Resets`, `Session.Completes` — where runs end and levels are reset

## Main results

* `Chronicle.won_iff` — events tell whether the world they lead to is won
* `Chronicle.collections` — a crystal is collected once
* `Session.progress_apply` — operations drive the active run by the events they report
* `Session.won_after_iff` — a run wins if it is completed in a won world and no reset follows
* `won_iff_completed_on_crystal` — when a level is won, whatever was done with it
-/

namespace RobotPuzzle

/-! ### What events tell of robot and crystal -/

namespace Event

/-- The cell that a robot has moved to. -/
def target? : Event → Option Cell
  | moved _ target _ => some target
  | _ => none

/-- The cell that a crystal was collected in. -/
def collectedCell? : Event → Option Cell
  | collected c => some c
  | _ => none

end Event

/-- The cell that events lead a robot to. -/
def Cell.along (c : Cell) (es : List Event) : Cell := es.foldl (fun c e => e.target?.getD c) c

namespace World

variable {w : World} {es : List Event}

theorem cell_replay (w : World) (es : List Event) :
    (w.replay es).robot.cell = w.robot.cell.along es := by
  induction es generalizing w with
  | nil => rfl
  | cons e es ih =>
    have hfirst : (w.follow e).robot.cell = e.target?.getD w.robot.cell := by
      cases e <;> rfl
    rw [replay_cons, ih, hfirst]
    rfl

/-- No event puts a crystal back. -/
theorem collected_replay_iff :
    (w.replay es).crystal.collected = true ↔
      w.crystal.collected = true ∨ ∃ c, .collected c ∈ es := by
  induction es generalizing w with
  | nil => simp
  | cons e es ih =>
    rw [replay_cons, ih]
    cases e <;> simp [follow]

end World

namespace Chronicle

variable {w v : World} {es : List Event}

/-- A robot that sets out for the crystal wins if its events say that it was collected and lead to
its cell. -/
theorem won_iff (h : Chronicle w es v) (hthere : w.crystal.collected = false) :
    v.Won ↔ w.robot.cell.along es = w.crystal.cell ∧ ∃ c, .collected c ∈ es := by
  have hcrystal : v.crystal.cell = w.crystal.cell := by
    rw [h.eq_replay]
    exact (w.sameSetting_replay es).crystal
  have hcollected : v.crystal.collected = true ↔ ∃ c, .collected c ∈ es := by
    rw [h.eq_replay, World.collected_replay_iff, hthere]
    simp
  rw [World.Won, World.AtCrystal, hcrystal, hcollected, h.eq_replay, World.cell_replay]

/-- A crystal is collected in its cell, and once, if it is not collected before. -/
theorem collections (h : Chronicle w es v) :
    es.filterMap Event.collectedCell? =
      if w.crystal.collected = v.crystal.collected then [] else [w.crystal.cell] := by
  induction h with
  | nil => simp
  | @cons w v u a e es heffect hlater ih =>
    obtain ⟨htells, hfollow⟩ := effect_iff_tells.mp heffect
    cases e with
    | collected c =>
      obtain ⟨-, -, hcell, hthere⟩ := htells
      have hnow : v.crystal.collected = true := by rw [hfollow]; rfl
      have hlast : u.crystal.collected = true := by
        rw [hlater.eq_replay, World.collected_replay_iff]
        exact .inl hnow
      -- it stays collected, so no later event collects it again
      rw [hnow, hlast, if_pos rfl] at ih
      rw [hthere, hlast, ← hcell]
      exact congrArg (c :: ·) ih
    -- no other event has to do with the crystal
    | extinguished | covered | moved | bumped | turned | collectMissed | extinguishMissed
    | coverMissed =>
      rw [hfollow] at ih
      exact ih

end Chronicle

namespace Session

variable {s s' s'' : Session} {op : Operation} {ops : List Operation} {o : Outcome}
  {es fs : List Event} {p q i n : Nat} {t u : Ticket}

/-! ### The events of operations -/

/-- A pause that also keeps the events it is told. -/
def noting {σ : Type} (wait : Event → StateM σ (List Ticket)) (e : Event) :
    StateM (σ × List Event) (List Ticket) := fun (before, seen) =>
  let (ts, last) := (wait e).run before
  (ts, (last, seen ++ [e]))

/-- The events that an operation has the active run report. -/
def reported (s : Session) : Operation → List Event
  | .tick => s.tick.1.toList
  | .tickFor t => (s.tickFor t).1.toList
  | .runToCompletion => s.tickAll.1
  | .runAwaiting wait before => ((s.runAwaiting (noting wait)).run (before, [])).2.2
  | .start _ | .cancel | .reset | .clear | .cancelTicket _ => []

/-- The events that operations have runs report, one operation after the other. -/
def reportedBy (s : Session) : List Operation → List Event
  | [] => []
  | op :: ops => s.reported op ++ (s.apply op).reportedBy ops

/-! ### Driving a run -/

/-- Ticking until nothing is left to run, with the events that the ticks report. Between two ticks,
runs may be cancelled. -/
inductive Driven : Session → List Event → Session → Prop
  | last {s s' : Session} : s.tick = (none, s') → Driven s [] s'
  | next {s s' s'' : Session} {e : Event} {es : List Event} (ts : List Ticket) :
    s.tick = (some e, s') → Driven (s'.cancelTickets ts) es s'' → Driven s (e :: es) s''

theorem driven_runToCompletion (s : Session) : s.Driven s.tickAll.1 s.runToCompletion.2 := by
  fun_induction runToCompletion s with
  | case1 s s' htick =>
    rw [tickAll_of_none htick]
    exact .last htick
  | case2 s e s' htick ih =>
    rw [tickAll_of_some htick]
    exact .next [] htick ih

/-- A pause that keeps events changes nothing of the run, and keeps all its events. -/
theorem driven_runAwaiting {σ : Type} (s : Session) (wait : Event → StateM σ (List Ticket))
    (before : σ) (seen : List Event) :
    ∃ es, ((s.runAwaiting (noting wait)).run (before, seen)).2.2 = seen ++ es ∧
      s.Driven es ((s.runAwaiting wait).run before).1.2 := by
  induction s using pause_induction generalizing before seen with
  | pause s ih =>
    rcases htick : s.tick with ⟨e?, s'⟩
    cases e? with
    | none =>
      rw [runAwaiting_of_none htick, runAwaiting_of_none htick]
      exact ⟨[], (List.append_nil seen).symm, .last htick⟩
    | some e =>
      obtain ⟨es, hes, hdriven⟩ :=
        ih e s' (wait e before).1 htick (wait e before).2 (seen ++ [e])
      rw [List.append_assoc] at hes
      rw [runAwaiting_of_some htick, runAwaiting_of_some htick]
      exact ⟨e :: es, hes, .next (wait e before).1 htick hdriven⟩

/-- What an active run comes to while it is driven: it is still active, in the world that its events
have led to, or it has ended in that world, and is won if it was completed there. -/
inductive Progress (s : Session) (es : List Event) (s' : Session) : Prop
  | active {run : ActiveRun} (runs : s'.run? = some run) (phase : s'.phase = s.phase)
      (told : Chronicle s.world es s'.world)
  | ended {o : Outcome} {v : World} (quiet : s'.run? = none) (outcome : s'.lastOutcome = some o)
      (phase : s'.phase = .won ↔ o = .completed ∧ v.Won) (told : Chronicle s.world es v)

namespace Progress

/-- What follows the first events of a run is its progress as well. -/
theorem prepend (hphase : s'.phase = s.phase) (htold : Chronicle s.world es s'.world)
    (h : Progress s' fs s'') : Progress s (es ++ fs) s'' := by
  cases h with
  | active runs phase told => exact .active runs (phase.trans hphase) (htold.append told)
  | ended quiet outcome phase told => exact .ended quiet outcome phase (htold.append told)

/-- Nothing but the console and the cancellations of other runs has changed. -/
theorem still (s' : Session) {run : ActiveRun} (hrun : s'.run? = some run)
    (hphase : s'.phase = s.phase) (hworld : s'.world = s.world) : Progress s [] s' :=
  .active hrun hphase (hworld ▸ .nil)

end Progress

theorem phase_finish_eq_won_iff (s : Session) (o : Outcome) :
    (s.finish o).phase = .won ↔ o = .completed ∧ s.world.Won := by
  cases o with
  | completed =>
    by_cases hwon : s.world.Won <;> simp [finish, hwon, say]
  | cancelled | failed => simp [finish, say]

@[simp] theorem cancelTickets_phase (s : Session) (ts : List Ticket) :
    (s.cancelTickets ts).phase = s.phase := by
  induction ts generalizing s with
  | nil => rfl
  | cons t ts ih => exact ih (s.cancelTicket t)

section Drive

variable {run : ActiveRun}

theorem progress_tick (hrun : s.run? = some run) : Progress s s.tick.1.toList s.tick.2 := by
  rcases hstep : (s.machine run).step with ⟨e | o, m⟩
  · rw [tick_of_applied hrun hstep]
    cases Machine.advance_of_step hstep with
    | performed live untold due left effect =>
      obtain ⟨console, hnarrate⟩ := narrate_eq _ e
      rw [hnarrate]
      exact .active rfl rfl (.single effect)
  · rw [tick_of_finished hrun hstep]
    have hworld : m.world = s.world := (Machine.step_of_finished hstep).1
    obtain ⟨phase, world, console, -, hfinish⟩ := finish_eq { s with world := m.world } o
    refine .ended ?_ (finish_lastOutcome _ o) ?_ .nil
    · rw [hfinish]
    · rw [phase_finish_eq_won_iff, hworld]

/-- A tick that ends a run reports no event. -/
theorem progress_of_last_tick (hrun : s.run? = some run) (h : s.tick = (none, s')) :
    Progress s [] s' := by
  have htick := progress_tick hrun
  rwa [h] at htick

/-- A tick that reports an event leads to a world that the run goes on in. -/
theorem chronicle_of_tick {e : Event} (hrun : s.run? = some run) (h : s.tick = (some e, s')) :
    s'.phase = s.phase ∧ Chronicle s.world [e] s'.world := by
  have htick := progress_tick hrun
  obtain ⟨run', hrun'⟩ := run?_of_tick h
  rw [h] at htick
  cases htick with
  | active runs phase told => exact ⟨phase, told⟩
  | ended quiet => cases quiet.symm.trans hrun'

theorem progress_tickFor (hrun : s.run? = some run) (t : Ticket) :
    Progress s (s.tickFor t).1.toList (s.tickFor t).2 := by
  unfold tickFor
  split
  · exact progress_tick hrun
  · exact .still s hrun rfl rfl

/-- A session that is ticked to the end of its run makes progress by the events of the ticks,
whatever is cancelled in between. -/
theorem Driven.progress (h : s.Driven es s') (hrun : s.run? = some run) : Progress s es s' := by
  induction h generalizing run with
  | last htick => exact progress_of_last_tick hrun htick
  | @next s s' _ e _ ts htick _ ih =>
    obtain ⟨hphase, htold⟩ := chronicle_of_tick hrun htick
    obtain ⟨run', hrun'⟩ := run?_of_tick htick
    rw [← cancelTickets_phase s' ts] at hphase
    rw [← cancelTickets_world s' ts] at htold
    exact .prepend hphase htold (ih ((cancelTickets_run? s' ts).trans hrun'))

end Drive

/-! ### What operations do to a run -/

/-- An operation ends the active run with an outcome. -/
def Ends (o : Outcome) (s : Session) (op : Operation) : Prop :=
  (∃ run, s.run? = some run) ∧ (s.apply op).run? = none ∧ (s.apply op).lastOutcome = some o

/-- An operation resets the level and is not refused. -/
def Resets (s : Session) (op : Operation) : Prop := op = .reset ∧ s.reset.1 = .ok ()

theorem not_ends_of_run? {run : ActiveRun} (h : (s.apply op).run? = some run) : ¬ s.Ends o op := by
  rintro ⟨-, hended, -⟩
  cases hended.symm.trans h

theorem not_resets_of_running (h : s.phase = .running) : ¬ s.Resets op := by
  rintro ⟨-, hreset⟩
  rw [reset_of_running h] at hreset
  cases hreset

/-- Whatever is done while a run is active drives it by the events that are reported. -/
theorem progress_apply {run : ActiveRun} (hrun : s.run? = some run) (hphase : s.phase = .running)
    (op : Operation) : Progress s (s.reported op) (s.apply op) := by
  cases op with
  | start source =>
    have hrefused : s.apply (.start source) = s := congrArg Prod.snd (start_of_running hphase)
    rw [hrefused]
    exact .still s hrun rfl rfl
  | cancel =>
    have hcancel : s.apply .cancel = s.cancel.2 := rfl
    rw [hcancel, cancel, hrun]
    exact .ended rfl rfl (by simp [say]) .nil
  | reset =>
    have hrefused : s.apply .reset = s := congrArg Prod.snd (reset_of_running hphase)
    rw [hrefused]
    exact .still s hrun rfl rfl
  | clear => exact .still s.clear hrun rfl rfl
  | tick => exact progress_tick hrun
  | tickFor t => exact progress_tickFor hrun t
  | runToCompletion => exact s.driven_runToCompletion.progress hrun
  | runAwaiting wait before =>
    obtain ⟨es, hes, hdriven⟩ := s.driven_runAwaiting wait before []
    rw [reported, hes]
    exact hdriven.progress hrun
  | cancelTicket t => exact .still (s.cancelTicket t) hrun rfl rfl

/-- An operation is for the active run: it drives it or cancels it. -/
def Operation.ForRun : Operation → Prop
  | .cancel | .tick | .tickFor _ | .runToCompletion | .runAwaiting .. => True
  | .start _ | .reset | .clear | .cancelTicket _ => False

/-- What is for a run does nothing without one. -/
theorem apply_of_no_run (hrun : s.run? = none) (hop : op.ForRun) :
    s.apply op = s ∧ s.reported op = [] := by
  have htick : s.tick = (none, s) := tick_of_none hrun
  cases op with
  | cancel => exact ⟨by simp only [apply, cancel, hrun], rfl⟩
  | tick =>
    simp only [apply, reported, htick]
    exact ⟨trivial, rfl⟩
  | tickFor t =>
    have htickFor : s.tickFor t = (none, s) := by
      rw [tickFor, htick, ite_self]
    simp only [apply, reported, htickFor]
    exact ⟨trivial, rfl⟩
  | runToCompletion =>
    simp only [apply, reported, runToCompletion_of_none htick, tickAll_of_none htick, and_self]
  | runAwaiting wait before =>
    simp only [apply, reported, runAwaiting_of_none htick]
    exact ⟨rfl, rfl⟩
  | start | reset | clear | cancelTicket => exact hop.elim

/-- An operation that launches no run has nothing to report in a session without one, and a victory
is undone by a reset only. -/
theorem rest_apply (hrun : s.run? = none) (h : ¬ s.Accepts op) :
    (s.apply op).run? = none ∧ s.reported op = [] ∧
      ((s.apply op).phase = .won ↔ s.phase = .won ∧ ¬ s.Resets op) := by
  have hidle : op ≠ .reset → s.apply op = s ∧ s.reported op = [] →
      (s.apply op).run? = none ∧ s.reported op = [] ∧
        ((s.apply op).phase = .won ↔ s.phase = .won ∧ ¬ s.Resets op) := by
    rintro hne ⟨hsame, hevents⟩
    have hkept : ¬ s.Resets op := fun hresets => hne hresets.1
    rw [hsame]
    exact ⟨hrun, hevents, by simp [hkept]⟩
  cases op with
  | start source =>
    obtain ⟨e, hstart⟩ | ⟨e, line, hplayable, hstart⟩ | ⟨commands, -, hstart⟩ :=
      s.start_cases source
    · exact hidle (by simp) ⟨congrArg Prod.snd hstart, rfl⟩
    · have hrejected : s.apply (.start source) = s.fresh.say line := congrArg Prod.snd hstart
      rw [hrejected]
      refine ⟨hrun, rfl, iff_of_false (by simp [fresh, say]) ?_⟩
      exact fun hwon => hplayable.not_won hwon.1
    · exact absurd ⟨source, rfl, congrArg Prod.fst hstart⟩ h
  | reset =>
    by_cases hphase : s.phase = .running
    · have hrefused : s.apply .reset = s := congrArg Prod.snd (reset_of_running hphase)
      have hkept : ¬ s.Resets .reset := not_resets_of_running hphase
      rw [hrefused]
      exact ⟨hrun, rfl, by simp [hkept]⟩
    · have hreset := reset_of_not_running hphase
      have hdone : s.Resets .reset := ⟨rfl, congrArg Prod.fst hreset⟩
      have happly : s.apply .reset = { s with world := s.world.reset, phase := .idle } :=
        congrArg Prod.snd hreset
      rw [happly]
      exact ⟨hrun, rfl, by simp [hdone]⟩
  | clear => exact ⟨hrun, rfl, by simp [Resets, apply, clear]⟩
  | cancelTicket t => exact ⟨hrun, rfl, by simp [Resets, apply, cancelTicket]⟩
  | cancel | tick | tickFor | runToCompletion | runAwaiting =>
    exact hidle (by simp) (apply_of_no_run hrun trivial)

/-! ### Where runs end -/

/-- The session after the operation at a position. -/
theorem after_take_add_one (hop : ops[p]? = some op) :
    s.after (ops.take (p + 1)) = (s.after (ops.take p)).apply op := by
  rw [List.take_add_one, hop, Option.toList_some, after_append]
  rfl

section HappensAt

variable {P : Session → Operation → Prop}

/-- What happens later can be looked for among the later operations. -/
theorem happensAt_drop :
    (s.after (ops.take n)).HappensAt P (ops.drop n) i ↔ s.HappensAt P ops (n + i) := by
  have hbefore : (s.after (ops.take n)).after ((ops.drop n).take i) =
      s.after (ops.take (n + i)) := by
    rw [← after_append, ← List.take_add]
  rw [HappensAt, HappensAt, hbefore, List.getElem?_drop]

theorem forall_not_happensAt_cons :
    (∀ q, ¬ s.HappensAt P (op :: ops) q) ↔ ¬ P s op ∧ ∀ q, ¬ (s.apply op).HappensAt P ops q := by
  constructor
  · exact fun hnone => ⟨mt happensAt_zero.mpr (hnone 0), fun q => hnone (q + 1)⟩
  · rintro ⟨hfirst, hlater⟩ q
    cases q with
    | zero => exact mt happensAt_zero.mp hfirst
    | succ q => exact hlater q

end HappensAt

/-- Without a run and without one being launched, there is nothing to report, no run ends, and a
victory lasts until the level is reset. -/
theorem rest_after (hrun : s.run? = none) (h : ∀ q, ¬ s.AcceptedAt ops q) :
    s.reportedBy ops = [] ∧ (∀ o q, ¬ s.HappensAt (Ends o) ops q) ∧
      ((s.after ops).phase = .won ↔ s.phase = .won ∧ ∀ i, ¬ s.HappensAt Resets ops i) := by
  -- on the operations: there is no run before the first one, and none after it
  induction ops generalizing s with
  | nil => exact ⟨rfl, fun o q => not_happensAt_nil, by simp⟩
  | cons op ops ih =>
    obtain ⟨hrefused, hlater⟩ := forall_not_happensAt_cons.mp h
    obtain ⟨hrun', hevents, hwon⟩ := rest_apply hrun hrefused
    obtain ⟨hevents', hends, hwon'⟩ := ih hrun' hlater
    refine ⟨?_, fun o => forall_not_happensAt_cons.mpr ⟨?_, hends o⟩, ?_⟩
    · rw [reportedBy, hevents, hevents', List.append_nil]
    · rintro ⟨⟨run, hactive⟩, -⟩
      cases hrun.symm.trans hactive
    · rw [after_cons, hwon', hwon, forall_not_happensAt_cons, and_assoc]

/-- The operation at a position ends a run as completed, and no later one resets the level. -/
def Completes (s : Session) (ops : List Operation) (q : Nat) : Prop :=
  s.HappensAt (Ends .completed) ops q ∧ ∀ i, q < i → ¬ s.HappensAt Resets ops i

theorem exists_completes_cons :
    (∃ q, s.Completes (op :: ops) q) ↔
      (s.Ends .completed op ∧ ∀ i, ¬ (s.apply op).HappensAt Resets ops i) ∨
        ∃ q, (s.apply op).Completes ops q := by
  constructor
  · rintro ⟨q, hends, hkept⟩
    cases q with
    | zero => exact .inl ⟨happensAt_zero.mp hends, fun i => hkept (i + 1) i.succ_pos⟩
    | succ q =>
      exact .inr ⟨q, hends, fun i hi => hkept (i + 1) (Nat.succ_lt_succ hi)⟩
  · rintro (⟨hends, hkept⟩ | ⟨q, hends, hkept⟩)
    · refine ⟨0, happensAt_zero.mpr hends, fun i hi => ?_⟩
      obtain ⟨i, rfl⟩ := Nat.exists_eq_add_one_of_ne_zero (Nat.ne_of_gt hi)
      exact hkept i
    · refine ⟨q + 1, hends, fun i hi => ?_⟩
      obtain ⟨i, rfl⟩ := Nat.exists_eq_add_one_of_ne_zero (Nat.ne_of_gt (Nat.zero_lt_of_lt hi))
      exact hkept i (Nat.lt_of_succ_lt_succ hi)

/-- Whether a later operation completes a run can be looked for among the later ones. -/
theorem exists_completes_drop :
    (∃ q, (s.after (ops.take (p + 1))).Completes (ops.drop (p + 1)) q) ↔
      ∃ q, p < q ∧ s.Completes ops q := by
  constructor
  · rintro ⟨q, hends, hkept⟩
    refine ⟨p + 1 + q, by omega, happensAt_drop.mp hends, fun i hi => ?_⟩
    obtain ⟨i, rfl⟩ : ∃ j, i = p + 1 + j := ⟨i - (p + 1), by omega⟩
    exact mt happensAt_drop.mpr (hkept i (by omega))
  · rintro ⟨q, hpq, hends, hkept⟩
    obtain ⟨q, rfl⟩ : ∃ j, q = p + 1 + j := ⟨q - (p + 1), by omega⟩
    refine ⟨q, happensAt_drop.mpr hends, fun i hi => ?_⟩
    exact mt happensAt_drop.mp (hkept _ (by omega))

/-- While no other run is launched, the events of the active run lead to a world such that the level
is won if the run is completed, that world is won, and no reset follows. -/
theorem won_after_iff {run : ActiveRun} (hrun : s.run? = some run) (hphase : s.phase = .running)
    (h : ∀ q, ¬ s.AcceptedAt ops q) :
    ∃ v, Chronicle s.world (s.reportedBy ops) v ∧
      ((s.after ops).phase = .won ↔ v.Won ∧ ∃ q, s.Completes ops q) := by
  -- on the operations, as long as the run is active; what follows its end is at rest
  induction ops generalizing s run with
  | nil =>
    refine ⟨s.world, .nil, iff_of_false ?_ ?_⟩
    · rw [after_nil, hphase]
      nofun
    · rintro ⟨-, q, hends, -⟩
      exact not_happensAt_nil hends
  | cons op ops ih =>
    obtain ⟨-, hlater⟩ := forall_not_happensAt_cons.mp h
    cases progress_apply hrun hphase op with
    | active runs phase told =>
      -- an operation that the run survives does not end it, so a later one has to
      obtain ⟨v, htold, hwon⟩ := ih runs (phase.trans hphase) hlater
      refine ⟨v, told.append htold, ?_⟩
      have hgoes : ¬ s.Ends .completed op := not_ends_of_run? runs
      rw [after_cons, hwon, exists_completes_cons]
      simp only [hgoes, false_and, false_or]
    | @ended o v quiet outcome phase told =>
      -- once the run has ended, only a reset can change anything
      obtain ⟨hevents, hends, hwon⟩ := rest_after quiet hlater
      have hnone : ¬ ∃ q, (s.apply op).Completes ops q := fun ⟨q, hq⟩ => hends _ q hq.1
      have hcompleted : s.Ends .completed op ↔ o = .completed := by
        rw [Ends, outcome]
        simp [hrun, quiet]
      refine ⟨v, ?_, ?_⟩
      · rw [reportedBy, hevents, List.append_nil]
        exact told
      · rw [after_cons, hwon, phase, exists_completes_cons, hcompleted]
        simp only [hnone, or_false, and_assoc, and_left_comm]

/-! ### Runs that are told to stop -/

/-- An active run has not reached an outcome. -/
def Live (s : Session) : Prop := ∀ run, s.run? = some run → run.executor.outcome? = none

theorem Change.live (h : s.Change s') (hs : s.Live) : s'.Live := by
  intro run hrun
  cases h with
  | rejected | reset | cleared | told => exact hs run hrun
  | stopped => cases hrun
  | @stepped before e m active step =>
    rw [narrate_run?] at hrun
    obtain rfl := Option.some.inj hrun
    cases Machine.advance_of_step step with
    | performed live untold due left effect => rfl
  | finished active step =>
    obtain ⟨phase, world, console, -, hfinish⟩ := finish_eq _ _
    rw [hfinish] at hrun
    cases hrun

theorem live_after (l : Level) (ops : List Operation) : ((ofLevel l).after ops).Live := by
  refine after_induction (P := Live) ?_ Change.live ?_ ops
  · rintro s commands - - run ⟨⟩
    rfl
  · rintro run ⟨⟩

/-- The level is not won, and if a run is active, it has been told to stop. -/
structure Doomed (s : Session) : Prop where
  not_won : s.phase ≠ .won
  told : ∀ run, s.run? = some run → s.isCancelled run.ticket = true

/-- Cancelling a run takes no cancellation back. -/
theorem isCancelled_cancelTicket_of (h : s.isCancelled t = true) (u : Ticket) :
    (s.cancelTicket u).isCancelled t = true := by
  rw [isCancelled, List.getD_eq_getElem?_getD] at h ⊢
  by_cases hut : u = t
  · have hlt : t < s.cancelled.length := by
      by_contra hge
      rw [List.getElem?_eq_none (Nat.le_of_not_lt hge)] at h
      cases h
    simp [cancelTicket, hut, hlt]
  · rw [cancelTicket, List.getElem?_set_ne hut]
    exact h

/-- A run that has been told to stop takes no further step, so it is not completed. -/
theorem Change.doomed (h : s.Change s') (hlive : s.Live) (hs : s.Doomed) : s'.Doomed := by
  have hstop : ∀ {run : ActiveRun} {step : Step} {m : Machine}, s.run? = some run →
      (s.machine run).step = (step, m) → step = .finished .cancelled := by
    intro run step m hrun hstep
    have hcancelled := Machine.step_of_cancelled (m := s.machine run) (hlive run hrun)
      (hs.told run hrun)
    exact congrArg Prod.fst (hstep.symm.trans hcancelled)
  cases h with
  | rejected | reset => exact ⟨nofun, hs.told⟩
  | stopped => exact ⟨nofun, nofun⟩
  | cleared => exact ⟨hs.not_won, hs.told⟩
  | told u => exact ⟨hs.not_won, fun run hrun => isCancelled_cancelTicket_of (hs.told run hrun) u⟩
  | stepped active step => cases hstop active step
  | finished active step =>
    cases hstop active step
    exact ⟨nofun, nofun⟩

theorem Doomed.after (h : s.Doomed) (hlive : s.Live) (hnone : ∀ q, ¬ s.AcceptedAt ops q) :
    (s.after ops).Doomed := by
  have hboth : (s.after ops).Live ∧ (s.after ops).Doomed :=
    (changes_after hnone).induction (P := fun s => s.Live ∧ s.Doomed)
      (fun hchange hs => ⟨hchange.live hs.1, hchange.doomed hs.1 hs.2⟩) ⟨hlive, h⟩
  exact hboth.2

/-- Cancelling the active run, at once or by its ticket, dooms it. -/
theorem doomed_of_cancelled {l : Level} (h : ((ofLevel l).after ops).ticket? = some t)
    (hs : s = ((ofLevel l).after ops).cancelTicket t ∨ s = ((ofLevel l).after ops).cancel.2) :
    s.Doomed ∧ s.Live := by
  obtain ⟨run, hrun, rfl⟩ := Option.map_eq_some_iff.mp h
  have hlive := live_after l ops
  rcases hs with rfl | rfl
  · have hphase := (running_iff_after l ops).mpr ⟨run, hrun⟩
    have hnumbered : run.ticket < ((ofLevel l).after ops).cancelled.length :=
      Nat.lt_of_succ_le (Nat.le_of_eq (ticket_succ_of_after l ops h))
    refine ⟨⟨?_, fun run' hrun' => ?_⟩, (Change.told run.ticket).live hlive⟩
    · simp [cancelTicket, hphase]
    · obtain rfl : run = run' := Option.some.inj (hrun.symm.trans hrun')
      rw [isCancelled_cancelTicket hnumbered, beq_self_eq_true, Bool.or_true]
  · have hcancel : ((ofLevel l).after ops).cancel.2.run? = none ∧
        ((ofLevel l).after ops).cancel.2.phase = .idle := by
      rw [cancel, hrun]
      exact ⟨rfl, rfl⟩
    refine ⟨⟨?_, fun run' hrun' => ?_⟩, fun run' hrun' => ?_⟩
    · simp [hcancel.2]
    · cases hcancel.1.symm.trans hrun'
    · cases hcancel.1.symm.trans hrun'

/-! ### The last run -/

/-- A session that launches a run has its level put back, and the run is active. -/
theorem launched_after (l : Level) (h : (ofLevel l).AcceptedAt ops p) :
    let launched := (ofLevel l).after (ops.take (p + 1))
    launched.world = l.world ∧ launched.phase = .running ∧ ∃ run, launched.run? = some run := by
  intro launched
  obtain ⟨op, hop, source, rfl, haccepted⟩ := h
  obtain ⟨commands, -, hstart⟩ := start_of_accepted haccepted
  -- the level is put back before the program is read, whatever was done with it earlier
  have hlaunched : launched =
      ((ofLevel l).after (ops.take p)).fresh.launch commands :=
    (after_take_add_one hop).trans (congrArg Prod.snd hstart)
  rw [hlaunched]
  exact ⟨reset_world_of_level l (ops.take p), rfl, _, rfl⟩

/-- The last run that was launched wins if its events lead to a won world, and it is completed
without a reset behind it. -/
theorem LatestAt.won_iff {l : Level} (h : (ofLevel l).LatestAt ops p) :
    let events := ((ofLevel l).after (ops.take (p + 1))).reportedBy (ops.drop (p + 1))
    ∃ v, Chronicle l.world events v ∧
      (((ofLevel l).after ops).phase = .won ↔
        v.Won ∧ ∃ q, p < q ∧ (ofLevel l).Completes ops q) := by
  intro events
  obtain ⟨hworld, hphase, run, hrun⟩ := launched_after l h.accepted
  have hnone : ∀ q, ¬ ((ofLevel l).after (ops.take (p + 1))).AcceptedAt (ops.drop (p + 1)) q :=
    fun q hq => h.latest _ (by omega) (happensAt_drop.mp hq)
  obtain ⟨v, htold, hwon⟩ := won_after_iff hrun hphase hnone
  rw [← after_append, List.take_append_drop] at hwon
  refine ⟨v, hworld ▸ htold, hwon.trans (and_congr_right fun _ => ?_)⟩
  exact exists_completes_drop

end Session

open Session

/-- A level is won just if the last run that was launched was completed, no reset followed, and the
events of the run say that the crystal was collected and lead from the start of the robot to the
cell of the crystal. The crystal is then collected once and in its cell. So a run that walks away
from the crystal does not win, and neither does one that is cancelled before it has ended, whatever
it has collected. -/
theorem won_iff_completed_on_crystal (l : Level) (ops : List Operation) :
    let new := ofLevel l
    let now := new.after ops
    let events (p : Nat) := (new.after (ops.take (p + 1))).reportedBy (ops.drop (p + 1))
    let goal := l.config.crystal
    (now.phase = .won ↔
        ∃ p q, new.LatestAt ops p ∧ p < q ∧ new.Completes ops q ∧
          (∃ c, .collected c ∈ events p) ∧ l.config.start.cell.along (events p) = goal) ∧
      (∀ p c, new.LatestAt ops p → .collected c ∈ events p →
        (events p).filterMap Event.collectedCell? = [goal]) ∧
      (∀ p, new.LatestAt ops p → l.config.start.cell.along (events p) ≠ goal →
        now.phase ≠ .won) ∧
      ∀ t told later, now.ticket? = some t →
        told = now.cancelTicket t ∨ told = now.cancel.2 →
          (∀ q, ¬ told.AcceptedAt later q) → (told.after later).phase ≠ .won := by
  intro new now events goal
  have hwon : now.phase = .won ↔
      ∃ p q, new.LatestAt ops p ∧ p < q ∧ new.Completes ops q ∧
        (∃ c, .collected c ∈ events p) ∧ l.config.start.cell.along (events p) = goal := by
    constructor
    · intro hwon
      obtain ⟨p, hp⟩ | hnone := exists_latestAt new ops
      · obtain ⟨v, htold, hiff⟩ := hp.won_iff
        obtain ⟨hv, q, hpq, hcompletes⟩ := hiff.mp hwon
        obtain ⟨hgoal, hcollected⟩ := (htold.won_iff rfl).mp hv
        exact ⟨p, q, hp, hpq, hcompletes, hcollected, hgoal⟩
      · -- a session that has launched no run is not won
        have hnew := ((rest_after rfl hnone).2.2.mp hwon).1
        cases hnew
    · rintro ⟨p, q, hp, hpq, hcompletes, hcollected, hgoal⟩
      obtain ⟨v, htold, hiff⟩ := hp.won_iff
      exact hiff.mpr ⟨(htold.won_iff rfl).mpr ⟨hgoal, hcollected⟩, q, hpq, hcompletes⟩
  refine ⟨hwon, fun p c hp hc => ?_, fun p hp haway hnow => ?_,
    fun t told later hticket htold hnone => ?_⟩
  · obtain ⟨v, htold, -⟩ := hp.won_iff
    have hlast : v.crystal.collected = true := by
      rw [htold.eq_replay, World.collected_replay_iff]
      exact .inr ⟨c, hc⟩
    have hcollections := htold.collections
    rw [hlast] at hcollections
    exact hcollections
  · obtain ⟨p', q, hp', -, -, -, hgoal⟩ := hwon.mp hnow
    obtain rfl : p = p' := hp.unique hp'
    exact haway hgoal
  · obtain ⟨hdoomed, hlive⟩ := doomed_of_cancelled hticket htold
    exact (hdoomed.after hlive hnone).not_won

/-- A first program collects the crystal and walks away, a second one is cancelled when it stands in
the cell with the crystal collected, and a third one wins. -/
theorem won_iff_completed_on_crystal_third_try :
    let yard : Config :=
      { name := "Yard", gridSize := 3, budget := 5, start := ⟨⟨0, 0⟩, .east⟩, crystal := ⟨1, 0⟩ }
    let l : Level := ⟨yard, by decide⟩
    let new := ofLevel l
    let first : List Operation := [.start "forward 1 collect forward 1", .runToCompletion]
    let second := first ++ [.start "forward 1 collect", .tick, .tick]
    let third := second ++ [.cancelTicket 1, .tick, .start "forward 1 collect", .tickFor 2, .tick,
      .runToCompletion, .clear]
    let told := (new.after second).cancelTicket 1
    (new.LatestAt first 0 ∧
        l.config.start.cell.along ((new.after (first.take 1)).reportedBy (first.drop 1)) ≠
          l.config.crystal ∧
        (new.after first).phase ≠ .won) ∧
      ((new.after second).ticket? = some 1 ∧ (∀ q, ¬ told.AcceptedAt [.tick] q) ∧
        (told.after [.tick]).phase ≠ .won) ∧
      (new.after third).phase = .won ∧ ∃ p q, new.LatestAt third p ∧ p < q ∧
        new.Completes third q ∧
        ((new.after (third.take (p + 1))).reportedBy (third.drop (p + 1))).filterMap
          Event.collectedCell? = [⟨1, 0⟩] := by
  intro yard l new first second third told
  have hfirst : new.LatestAt first 0 := by
    refine ⟨⟨_, rfl, _, rfl, by decide +kernel⟩, fun q hq haccepted => ?_⟩
    have hlt : q < 2 := haccepted.lt_length
    obtain rfl : q = 1 := by omega
    obtain ⟨_, ⟨⟩, source, ⟨⟩, -⟩ := haccepted
  have haway : l.config.start.cell.along ((new.after (first.take 1)).reportedBy (first.drop 1)) ≠
      l.config.crystal := by decide +kernel
  have hticket : (new.after second).ticket? = some 1 := by decide +kernel
  have hnone : ∀ q, ¬ told.AcceptedAt [.tick] q := by
    intro q haccepted
    have hlt : q < 1 := haccepted.lt_length
    obtain rfl : q = 0 := by omega
    obtain ⟨_, ⟨⟩, source, ⟨⟩, -⟩ := haccepted
  have hwon : (new.after third).phase = .won := by decide +kernel
  obtain ⟨-, -, hloses, -⟩ := won_iff_completed_on_crystal l first
  obtain ⟨-, -, -, hstops⟩ := won_iff_completed_on_crystal l second
  obtain ⟨hwins, honce, -⟩ := won_iff_completed_on_crystal l third
  obtain ⟨p, q, hp, hpq, hcompletes, ⟨c, hc⟩, -⟩ := hwins.mp hwon
  exact ⟨⟨hfirst, haway, hloses 0 hfirst haway⟩,
    ⟨hticket, hnone, hstops 1 told [.tick] hticket (.inl rfl) hnone⟩,
    hwon, p, q, hp, hpq, hcompletes, honce p c hp hc⟩

end RobotPuzzle
