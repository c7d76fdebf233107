import RobotPuzzle.Proofs.Winning

/-!
# The console is a transcript

Until it is cleared, the console of a session tells in words what was done, and nothing else. Each
operation adds to its end the rejection of a program, or a line for each event of the active run
that has one, and a last line if the run ends in victory or is cancelled. Of these, only a vain
attempt to collect the crystal takes more than its event: what is said of it depends on what the
same run has done before, and that is just what the world knows of the crystal.

## Main definitions

* `Event.line?`, `Event.lines` — what is written of events, given the earlier ones of their run
* `Session.rejection`, `Session.closing`, `Session.written` — the lines that an operation writes
* `Session.heard` — the events of the run that was launched last
* `Session.transcript` — the lines that operations write, one operation after the other

## Main results

* `Effect.narration?_eq` — the world after an event has it told as the earlier events have it
* `Session.Driven.console_eq` — the lines of a run that is ticked to its end
* `Session.Attentive.console_apply` — an operation writes its lines to the console
* `Session.LatestAt.heard_eq` — what is heard is what the last run has reported
* `console_is_transcript` — the console of a session, whatever was done with it
-/

namespace RobotPuzzle

variable {earlier es fs : List Event} {e : Event}

/-! ### The lines of events -/

namespace Event

instance (es : List Event) : Decidable (∃ c, collected c ∈ es) :=
  decidable_of_iff (∃ e ∈ es, e.collectedCell?.isSome = true) <| by
    constructor
    · rintro ⟨e, he, hcell⟩
      cases e with
      | collected c => exact ⟨c, he⟩
      | _ => cases hcell
    · exact fun ⟨c, hc⟩ => ⟨_, hc, rfl⟩

/-- What is written of an event when its run has reported others before it. -/
def line? (earlier : List Event) : Event → Option String
  | collected _ => some "Crystal collected."
  | collectMissed _ =>
    some (if ∃ c, collected c ∈ earlier then "The crystal was already collected."
      else "The robot is not on the crystal.")
  | extinguished _ => some "Fire put out."
  | extinguishMissed _ => some "There is no fire here."
  | covered _ => some "Hole covered."
  | coverMissed _ => some "There is nothing to cover here."
  | moved .. | bumped .. | turned _ => none

/-- What is written of events, each of them behind those before it. -/
def lines (earlier : List Event) : List Event → List String
  | [] => []
  | e :: es => (e.line? earlier).toList ++ lines (earlier ++ [e]) es

@[simp] theorem lines_nil (earlier : List Event) : lines earlier [] = [] := rfl

theorem lines_cons (earlier : List Event) (e : Event) (es : List Event) :
    lines earlier (e :: es) = lines earlier [e] ++ lines (earlier ++ [e]) es := by
  simp [lines]

end Event

/-! ### What the world knows of earlier events -/

/-- The crystal of a world is collected just if events say so. -/
def World.Recalls (w : World) (earlier : List Event) : Prop :=
  w.crystal.collected = true ↔ ∃ c, .collected c ∈ earlier

theorem World.recalls_reset (w : World) : w.reset.Recalls [] := by
  simp [Recalls, reset]

section Recalls

variable {w v : World} {a : Action}

theorem Chronicle.recalls (h : Chronicle w es v) (hw : w.Recalls earlier) :
    v.Recalls (earlier ++ es) := by
  rw [World.Recalls] at hw ⊢
  rw [h.eq_replay, World.collected_replay_iff, hw]
  simp [exists_or]

/-- The world after an event has it told as the earlier events have it. -/
theorem Effect.narration?_eq (h : Effect w a e v) (hw : w.Recalls earlier) :
    Session.narration? v e = e.line? earlier := by
  obtain ⟨-, rfl⟩ := effect_iff_tells.mp h
  cases e with
  | collectMissed c =>
    -- a vain attempt leaves the crystal as it was
    have hknown : (w.follow (.collectMissed c)).crystal.collected = true ↔
        ∃ c, .collected c ∈ earlier := hw
    simp only [Session.narration?, Event.line?, hknown]
  | _ => rfl

end Recalls

namespace Session

variable {s s' : Session} {op : Operation} {ops later : List Operation} {o o' : Outcome}
  {p q : Nat} {t : Ticket}

/-! ### The lines of operations -/

instance (s : Session) (op : Operation) : Decidable (s.Accepts op) :=
  match op with
  | .start source =>
    decidable_of_iff ((s.start source).1 = .ok ()) ⟨fun h => ⟨source, rfl, h⟩, fun ⟨_, heq, h⟩ => by
      cases heq
      exact h⟩
  | .cancel | .reset | .clear | .tick | .tickFor _ | .runToCompletion | .runAwaiting .. |
    .cancelTicket _ => .isFalse nofun

instance (o : Outcome) (s : Session) (op : Operation) : Decidable (s.Ends o op) :=
  decidable_of_iff (s.run?.isSome = true ∧ (s.apply op).run? = none ∧
    (s.apply op).lastOutcome = some o) <| by
    rw [Ends, Option.isSome_iff_exists]

/-- What is written of a program that is rejected. Nothing is, if it is not even read. -/
def rejection (s : Session) : Operation → List String
  | .start source =>
    match (s.start source).1 with
    | .error (.program e) => ["Program rejected: " ++ e.message]
    | .error .alreadyRunning | .error .alreadyWon | .ok () => []
  | _ => []

/-- What is written of the end of a run. -/
def closing (s : Session) (op : Operation) : List String :=
  if s.Ends .cancelled op then ["Execution cancelled."]
  else if s.phase ≠ .won ∧ (s.apply op).phase = .won then ["Level complete!"]
  else []

/-- What an operation writes to the console when the active run has reported events before. -/
def written (s : Session) (earlier : List Event) (op : Operation) : List String :=
  s.rejection op ++ Event.lines earlier (s.reported op) ++ s.closing op

/-- The events of the run that was launched last, with those that an operation has it report. -/
def hearing (s : Session) (earlier : List Event) (op : Operation) : List Event :=
  if s.Accepts op then [] else earlier ++ s.reported op

/-- The events of the run that was launched last, after several operations. -/
def heard (s : Session) (earlier : List Event) : List Operation → List Event
  | [] => earlier
  | op :: ops => (s.apply op).heard (s.hearing earlier op) ops

/-- What operations write to the console, one operation after the other. -/
def transcript (s : Session) (earlier : List Event) : List Operation → List String
  | [] => []
  | op :: ops => s.written earlier op ++ (s.apply op).transcript (s.hearing earlier op) ops

/-! ### The lines of a run -/

/-- The last line of a run, as far as the session it has left tells. -/
def parting (s : Session) : List String :=
  if s.run?.isSome then []
  else if s.lastOutcome = some .cancelled then ["Execution cancelled."]
  else if s.phase = .won then ["Level complete!"]
  else []

theorem parting_of_run {run : ActiveRun} (hrun : s.run? = some run) : s.parting = [] := by
  simp [parting, hrun]

theorem console_narrate (s : Session) (e : Event) :
    (s.narrate e).console = s.console ++ (narration? s.world e).toList := by
  unfold narrate
  split
  · next hline =>
    rw [hline]
    rfl
  · next hline =>
    rw [hline]
    exact (List.append_nil _).symm

theorem console_finish (s : Session) (o : Outcome) :
    (s.finish o).console = s.console ++ (s.finish o).parting := by
  cases o with
  | completed => by_cases hwon : s.world.Won <;> simp [finish, hwon, say, parting]
  | cancelled | failed => simp [finish, say, parting]

@[simp] theorem cancelTickets_console (s : Session) (ts : List Ticket) :
    (s.cancelTickets ts).console = s.console := by
  induction ts generalizing s with
  | nil => rfl
  | cons t ts ih => exact ih (s.cancelTicket t)

section Drive

variable {run : ActiveRun}

theorem console_tick (hrun : s.run? = some run) (hs : s.world.Recalls earlier) :
    s.tick.2.console = s.console ++ Event.lines earlier s.tick.1.toList ++ s.tick.2.parting := by
  rcases hstep : (s.machine run).step with ⟨e | o, m⟩
  · rw [tick_of_applied hrun hstep]
    cases Machine.advance_of_step hstep with
    | performed live untold due left effect =>
      rw [console_narrate, effect.narration?_eq hs, parting_of_run (narrate_run? _ e)]
      simp [Event.lines]
  · have hworld : m.world = s.world := (Machine.step_of_finished hstep).1
    rw [tick_of_finished hrun hstep, hworld, console_finish]
    simp

theorem console_tickFor (hrun : s.run? = some run) (hs : s.world.Recalls earlier) (t : Ticket) :
    (s.tickFor t).2.console =
      s.console ++ Event.lines earlier (s.tickFor t).1.toList ++ (s.tickFor t).2.parting := by
  unfold tickFor
  split
  · exact console_tick hrun hs
  · simp [parting_of_run hrun]

/-- A run that is ticked to its end has the lines of its events written, and its last line. -/
theorem Driven.console_eq (h : s.Driven es s') (hrun : s.run? = some run)
    (hs : s.world.Recalls earlier) :
    s'.console = s.console ++ Event.lines earlier es ++ s'.parting := by
  induction h generalizing run earlier with
  | last htick =>
    have hlast := console_tick hrun hs
    rwa [htick] at hlast
  | @next s s' _ e es ts htick _ ih =>
    have hfirst := console_tick hrun hs
    rw [htick] at hfirst
    obtain ⟨-, htold⟩ := chronicle_of_tick hrun htick
    obtain ⟨run', hrun'⟩ := run?_of_tick htick
    have hknown : (s'.cancelTickets ts).world.Recalls (earlier ++ [e]) := by
      rw [cancelTickets_world]
      exact htold.recalls hs
    -- the run goes on, so its first tick has written no last line yet
    rw [ih ((cancelTickets_run? s' ts).trans hrun') hknown, cancelTickets_console, hfirst,
      parting_of_run hrun', Event.lines_cons earlier e es]
    simp

end Drive

/-! ### The lines of operations are written -/

/-- What has been heard of the active run is all there is to know of the crystal. -/
def Attentive (s : Session) (earlier : List Event) : Prop :=
  ∀ run, s.run? = some run → s.phase = .running ∧ s.world.Recalls earlier

/-- Whatever is done while a run is active writes the lines of its events, and its last line. -/
theorem console_apply_of_run {run : ActiveRun} (hrun : s.run? = some run)
    (hphase : s.phase = .running) (hs : s.world.Recalls earlier) (hop : op ≠ .clear) :
    (s.apply op).console =
      s.console ++ Event.lines earlier (s.reported op) ++ (s.apply op).parting := by
  cases op with
  | start source =>
    have hrefused : s.apply (.start source) = s := congrArg Prod.snd (start_of_running hphase)
    rw [hrefused, parting_of_run hrun]
    simp [reported]
  | cancel =>
    have hcancel : s.apply .cancel = s.cancel.2 := rfl
    simp [hcancel, cancel, hrun, say, reported, parting, cancelTicket]
  | reset =>
    have hrefused : s.apply .reset = s := congrArg Prod.snd (reset_of_running hphase)
    rw [hrefused, parting_of_run hrun]
    simp [reported]
  | clear => exact absurd rfl hop
  | tick => exact console_tick hrun hs
  | tickFor t => exact console_tickFor hrun hs t
  | runToCompletion => exact s.driven_runToCompletion.console_eq hrun hs
  | runAwaiting wait before =>
    obtain ⟨es, hes, hdriven⟩ := s.driven_runAwaiting wait before []
    rw [reported, hes]
    exact hdriven.console_eq hrun hs
  | cancelTicket t =>
    have htold : (s.apply (.cancelTicket t)).run? = some run := hrun
    rw [parting_of_run htold]
    simp [reported, apply, cancelTicket]

/-- The last line of a run is written by the operation that ends it. -/
theorem closing_of_run {run : ActiveRun} (hrun : s.run? = some run) (hphase : s.phase = .running) :
    s.closing op = (s.apply op).parting := by
  have hnot_won : s.phase ≠ .won := by simp [hphase]
  cases progress_apply hrun hphase op with
  | active runs phase told =>
    have hgoes : ¬ s.Ends .cancelled op := not_ends_of_run? runs
    rw [parting_of_run runs, closing, if_neg hgoes, phase, if_neg (fun h => h.1 h.2)]
  | @ended o v quiet outcome phase told =>
    have hends : s.Ends .cancelled op ↔ (s.apply op).lastOutcome = some .cancelled := by
      simp [Ends, hrun, quiet]
    simp [closing, parting, hends, quiet, hnot_won]

theorem rejection_of_running (hphase : s.phase = .running) : s.rejection op = [] := by
  cases op with
  | start source => simp only [rejection, start_of_running hphase]
  | _ => rfl

/-- Starting a program writes that it is rejected, if it is. -/
theorem console_start (s : Session) (source : String) :
    (s.start source).2.console = s.console ++ s.rejection (.start source) := by
  by_cases hrunning : s.phase = .running
  · rw [rejection, start_of_running hrunning]
    exact (List.append_nil _).symm
  · by_cases hwon : s.phase = .won
    · rw [rejection, start_of_won hwon]
      exact (List.append_nil _).symm
    · have hplayable : s.Playable := ⟨hrunning, hwon⟩
      cases hparse : parse source s.level.budget with
      | error e =>
        rw [rejection, start_of_error hplayable hparse]
        rfl
      | ok commands =>
        rw [rejection, start_of_ok hplayable hparse]
        exact (List.append_nil _).symm

/-- Without a run, only the rejection of a program is written. -/
theorem console_apply_of_no_run (hrun : s.run? = none) (hop : op ≠ .clear) :
    (s.apply op).console = s.console ++ s.rejection op := by
  have hidle : s.apply op = s ∧ s.reported op = [] → s.rejection op = [] →
      (s.apply op).console = s.console ++ s.rejection op := by
    rintro ⟨hsame, -⟩ hnone
    rw [hsame, hnone, List.append_nil]
  cases op with
  | start source => exact s.console_start source
  | reset =>
    by_cases hphase : s.phase = .running
    · exact hidle ⟨congrArg Prod.snd (reset_of_running hphase), rfl⟩ rfl
    · simp only [apply, reset_of_not_running hphase]
      exact (List.append_nil _).symm
  | clear => exact absurd rfl hop
  | cancelTicket t => exact (List.append_nil _).symm
  | cancel | tick | tickFor | runToCompletion | runAwaiting =>
    exact hidle (apply_of_no_run hrun trivial) rfl

/-- Without a run, there is no event to write of, and no end of a run. -/
theorem written_of_no_run (hrun : s.run? = none) : s.written earlier op = s.rejection op := by
  have hquiet : s.reported op = [] ∧ ¬ (s.phase ≠ .won ∧ (s.apply op).phase = .won) := by
    by_cases haccepts : s.Accepts op
    · obtain ⟨-, commands, -, hlaunch⟩ | ⟨hnot, -⟩ := s.apply_cases op
      · obtain ⟨source, rfl, -⟩ := haccepts
        exact ⟨rfl, by simp [hlaunch, launch]⟩
      · exact absurd haccepts hnot
    · obtain ⟨-, hreported, hwon⟩ := rest_apply hrun haccepts
      exact ⟨hreported, fun hwins => hwins.1 (hwon.mp hwins.2).1⟩
  have hends : ¬ s.Ends .cancelled op := by simp [Ends, hrun]
  rw [written, hquiet.1, closing, if_neg hends, if_neg hquiet.2]
  simp

namespace Attentive

theorem ofLevel (l : Level) : (ofLevel l).Attentive [] := by
  rintro run ⟨⟩

/-- An operation writes its lines to the end of the console. -/
theorem console_apply (h : s.Attentive earlier) (hop : op ≠ .clear) :
    (s.apply op).console = s.console ++ s.written earlier op := by
  cases hrun : s.run? with
  | some run =>
    obtain ⟨hphase, hs⟩ := h run hrun
    rw [console_apply_of_run hrun hphase hs hop, written, rejection_of_running hphase,
      closing_of_run hrun hphase, List.nil_append, List.append_assoc]
  | none => rw [console_apply_of_no_run hrun hop, written_of_no_run hrun]

/-- What is heard of a run keeps up with it: a new run has not been heard of, and finds the crystal
in its place. -/
theorem apply (h : s.Attentive earlier) (op : Operation) :
    (s.apply op).Attentive (s.hearing earlier op) := by
  by_cases haccepts : s.Accepts op
  · rw [hearing, if_pos haccepts]
    obtain ⟨-, commands, -, hlaunch⟩ | ⟨hnot, -⟩ := s.apply_cases op
    · -- the level was put back before the run was launched
      rw [hlaunch]
      exact fun run _ => ⟨rfl, s.world.recalls_reset⟩
    · exact absurd haccepts hnot
  · rw [hearing, if_neg haccepts]
    cases hrun : s.run? with
    | some run =>
      -- the run is still the one that was heard of, or there is none
      obtain ⟨hphase, hs⟩ := h run hrun
      cases progress_apply hrun hphase op with
      | active runs phase told => exact fun run' _ => ⟨phase.trans hphase, told.recalls hs⟩
      | ended quiet outcome phase told => exact fun run' hrun' => nomatch quiet.symm.trans hrun'
    | none =>
      have hnone := (rest_apply hrun haccepts).1
      exact fun run' hrun' => nomatch hnone.symm.trans hrun'

theorem after (h : s.Attentive earlier) (ops : List Operation) :
    (s.after ops).Attentive (s.heard earlier ops) := by
  induction ops generalizing s earlier with
  | nil => exact h
  | cons op ops ih => exact ih (h.apply op)

/-- As long as it is not cleared, the console takes up the transcript. -/
theorem console_after (h : s.Attentive earlier) (hops : .clear ∉ ops) :
    (s.after ops).console = s.console ++ s.transcript earlier ops := by
  induction ops generalizing s earlier with
  | nil => exact (List.append_nil _).symm
  | cons op ops ih =>
    obtain ⟨hop, hlater⟩ := List.ne_and_not_mem_of_not_mem_cons hops
    rw [after_cons, ih (h.apply op) hlater, h.console_apply hop.symm, transcript, List.append_assoc]

end Attentive

/-! ### What is heard -/

/-- While no other run is launched, all that is reported is heard. -/
theorem heard_of_none_accepted (h : ∀ q, ¬ s.AcceptedAt ops q) :
    s.heard earlier ops = earlier ++ s.reportedBy ops := by
  induction ops generalizing s earlier with
  | nil => exact (List.append_nil _).symm
  | cons op ops ih =>
    obtain ⟨hfirst, hlater⟩ := forall_not_happensAt_cons.mp h
    rw [heard, ih hlater, hearing, if_neg hfirst, reportedBy, List.append_assoc]

/-- What is heard is what the run that was launched last has reported. -/
theorem LatestAt.heard_eq (h : s.LatestAt ops p) :
    s.heard earlier ops = (s.after (ops.take (p + 1))).reportedBy (ops.drop (p + 1)) := by
  induction ops generalizing s earlier p with
  | nil => exact absurd h.accepted not_acceptedAt_nil
  | cons op ops ih =>
    cases p with
    | zero =>
      have hfirst : s.Accepts op := acceptedAt_zero.mp h.accepted
      have hlater : ∀ q, ¬ (s.apply op).AcceptedAt ops q := fun q => h.latest (q + 1) q.succ_pos
      -- whatever was heard of earlier runs is forgotten here
      rw [heard, hearing, if_pos hfirst, heard_of_none_accepted hlater]
      rfl
    | succ p => exact ih ⟨h.accepted, fun q hq => h.latest (q + 1) (Nat.succ_lt_succ hq)⟩

/-! ### The end of a run -/

/-- An operation ends the run that has a ticket. -/
def EndsRun (t : Ticket) (s : Session) (op : Operation) : Prop :=
  s.ticket? = some t ∧ ∃ o, s.Ends o op

/-- The ticket of a run that has ended is stale. -/
theorem stale_of_endsRun {l : Level} (h : ((ofLevel l).after ops).EndsRun t op) :
    (((ofLevel l).after ops).apply op).Stale t := by
  obtain ⟨hticket, o, -, hquiet, -⟩ := h
  have hnumbered : t < ((ofLevel l).after ops).cancelled.length :=
    Nat.lt_of_succ_le (Nat.le_of_eq (ticket_succ_of_after l ops hticket))
  exact ⟨Nat.lt_of_lt_of_le hnumbered (length_le_apply _ op), by simp [ticket?, hquiet]⟩

/-- A run ends once. -/
theorem not_endsRun_again {l : Level} (hp : (ofLevel l).HappensAt (EndsRun t) ops p) (hpq : p < q) :
    ¬ (ofLevel l).HappensAt (EndsRun t) ops q := by
  intro hq
  obtain ⟨i, rfl⟩ : ∃ i, q = p + 1 + i := ⟨q - (p + 1), by omega⟩
  obtain ⟨op, hop, hends⟩ := hp
  obtain ⟨op', -, hticket, -⟩ := happensAt_drop.mpr hq
  -- a ticket that is stale after the first end is still so at the second
  have hstale := stale_of_endsRun hends
  rw [← after_take_add_one hop] at hstale
  exact (hstale.after _).ended hticket

end Session

open Session

/-- The console is a transcript. It is empty at first and when it is cleared, and otherwise each
operation adds its lines to the end and takes none away: the rejection of a program, the lines of
the events that the active run has been made to report, and a last line if the run has ended in
victory or was cancelled. Whether an attempt to collect the crystal comes too late is told by the
events of the same run before it. A run ends once, so its last line is written once. -/
theorem console_is_transcript (l : Level) (ops : List Operation) :
    let new := ofLevel l
    let now := new.after ops
    let earlier := new.heard [] ops
    new.console = [] ∧ (now.apply .clear).console = [] ∧
      (∀ later, .clear ∉ later →
        (now.after later).console = now.console ++ now.transcript earlier later) ∧
      (∀ p, new.LatestAt ops p →
        earlier = (new.after (ops.take (p + 1))).reportedBy (ops.drop (p + 1))) ∧
      ∀ t p q, new.HappensAt (EndsRun t) ops p → new.HappensAt (EndsRun t) ops q → p = q := by
  intro new now earlier
  have hnow : now.Attentive earlier := (Attentive.ofLevel l).after ops
  refine ⟨rfl, rfl, fun later => hnow.console_after, fun p hp => hp.heard_eq,
    fun t p q hp hq => ?_⟩
  rcases Nat.lt_trichotomy p q with hlt | heq | hlt
  · exact absurd hq (not_endsRun_again hp hlt)
  · exact heq
  · exact absurd hp (not_endsRun_again hq hlt)

/-- A program that is rejected, a run that tries to collect the crystal three times and wins, and
two runs that are cancelled by their tickets, one of them at once and again. -/
theorem console_is_transcript_three_runs :
    let yard : Config :=
      { name := "Yard", gridSize := 3, budget := 8, start := ⟨⟨0, 0⟩, .east⟩, crystal := ⟨1, 0⟩ }
    let l : Level := ⟨yard, by decide⟩
    let new := ofLevel l
    let ops : List Operation :=
      [.start "jump", .start "collect forward 1 collect collect", .tick, .tick]
    let later : List Operation := [.start "left", .tickFor 0, .runToCompletion, .start "left"]
    let stopped : List Operation := [.start "left left", .tick, .cancelTicket 0, .cancel, .tick,
      .start "right right", .cancelTicket 1, .tick, .cancel]
    (.clear ∉ later ∧ ((new.after ops).after later).console =
        ["Program rejected: line 1, column 1: I don't understand \x60jump\x60",
          "The robot is not on the crystal."] ++
        ["Crystal collected.", "The crystal was already collected.", "Level complete!"]) ∧
      (new.LatestAt ops 1 ∧ (new.after (ops.take 2)).reportedBy (ops.drop 2) =
        [.collectMissed ⟨0, 0⟩, .moved ⟨0, 0⟩ ⟨1, 0⟩ false]) ∧
      (.clear ∉ stopped ∧
        (new.after stopped).console = ["Execution cancelled.", "Execution cancelled."]) ∧
      new.HappensAt (EndsRun 0) stopped 3 ∧ ∀ q, new.HappensAt (EndsRun 0) stopped q → q = 3 := by
  intro yard l new ops later stopped
  have hlater : .clear ∉ later := by simp [later]
  have hstopped : .clear ∉ stopped := by simp [stopped]
  have hlatest : new.LatestAt ops 1 := by
    refine ⟨⟨_, rfl, _, rfl, by decide +kernel⟩, fun q hq haccepted => ?_⟩
    have hlt : q < 4 := haccepted.lt_length
    obtain rfl | rfl : q = 2 ∨ q = 3 := by omega
    all_goals
      obtain ⟨_, ⟨⟩, source, ⟨⟩, -⟩ := haccepted
  have hheard : new.heard [] ops = [.collectMissed ⟨0, 0⟩, .moved ⟨0, 0⟩ ⟨1, 0⟩ false] := by
    decide +kernel
  have hends : new.HappensAt (EndsRun 0) stopped 3 :=
    ⟨.cancel, rfl, by decide +kernel, .cancelled, by decide +kernel⟩
  obtain ⟨-, -, hconsole, hreported, -⟩ := console_is_transcript l ops
  obtain ⟨-, -, hwritten, -⟩ := console_is_transcript l []
  obtain ⟨-, -, -, -, honce⟩ := console_is_transcript l stopped
  refine ⟨⟨hlater, (hconsole later hlater).trans ?_⟩,
    ⟨hlatest, (hreported 1 hlatest).symm.trans hheard⟩,
    ⟨hstopped, (hwritten stopped hstopped).trans ?_⟩,
    hends, fun q hq => honce 0 q 3 hq hends⟩
  · decide +kernel
  · decide +kernel

end RobotPuzzle
