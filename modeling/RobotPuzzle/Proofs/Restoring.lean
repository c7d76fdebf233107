import RobotPuzzle.Proofs.Consistency
import RobotPuzzle.Proofs.Quenching

/-!
# Resetting restores the level

A reset puts back only what a run is known to change: the robot, the crystal and which hazards
are active. This is enough, because nothing else ever changes: whatever is done with a session,
resetting its world gives what resetting it before would have given, which is the world of the
level. So every operation that resets the world leaves it as the level describes it.

## Main definitions

* `Session.Restored` — a session whose world is that of its level, also after further resets

## Main results

* `Action.reset_perform` — no action changes what a reset gives
* `Level.reset_world` — the world of a level is reset already
* `Session.reset_world_apply` — no operation changes what a reset gives
* `Session.world_of_cancelled` — a run that ends as cancelled leaves a world that is reset
* `restored_after` — whatever has been done with a session, resetting it restores the level
-/

namespace RobotPuzzle

/-! ### What a reset gives -/

namespace World

variable {w w' : World} {e : Event}

theorem reset_stride {heading : Heading} (h : w.stride heading = .ok (e, w')) :
    w'.reset = w.reset := by
  simp only [World.stride] at h
  split at h
  · split at h <;> cases h <;> rfl
  · cases h

/-- A world in which only a hazard was deactivated. -/
theorem reset_of_deactivate? {g : Grid} {c : Cell} {kind? : Option HazardKind}
    (h : w.grid.deactivate? c kind? = some g) : ({ w with grid := g } : World).reset = w.reset := by
  simp only [World.reset, Grid.rearm_of_deactivate? h]

end World

/-- No action changes what a reset gives. -/
theorem Action.reset_perform {w w' : World} {e : Event} {a : Action}
    (h : a.perform w = .ok (e, w')) : w'.reset = w.reset := by
  cases a with
  | move heading cells => exact World.reset_stride h
  | turnLeft =>
    cases h
    rfl
  | turnRight =>
    cases h
    rfl
  | collect =>
    simp only [Action.perform] at h
    split at h <;> cases h <;> rfl
  | extinguish =>
    simp only [Action.perform] at h
    split at h
    · next hg =>
      cases h
      exact World.reset_of_deactivate? hg
    · cases h
      rfl
  | cover =>
    simp only [Action.perform] at h
    split at h
    · next hg =>
      cases h
      exact World.reset_of_deactivate? hg
    · cases h
      rfl

/-- Neither does a step of a machine. -/
theorem Machine.reset_step (m : Machine) : m.step.2.world.reset = m.world.reset := by
  unfold Machine.step
  split
  · rfl
  · split
    · rfl
    · split
      · rfl
      · split
        · rfl
        · split
          · rfl
          · next hperform => exact Action.reset_perform hperform

/-! ### The world of a level -/

theorem Hazards.rearm_register (hs : Hazards) (kind : HazardKind) (c : Cell) :
    (hs.register kind c).rearm = hs.rearm.register kind c := by
  induction hs with
  | nil => rfl
  | cons h hs ih =>
    simp only [Hazards.register, Hazards.rearm, List.map_cons] at ih ⊢
    by_cases hc : h.cell = c
    · simp [hc]
    · simp [hc, ih]

/-- Every hazard is active when it is placed. -/
theorem Config.rearm_grid (c : Config) : c.grid.rearm = c.grid := by
  have hwalls : ∀ (rs : List Rect) (g : Grid),
      (rs.foldl Grid.addWall g).rearm = rs.foldl Grid.addWall g.rearm := by
    intro rs
    induction rs with
    | nil => exact fun _ => rfl
    | cons r rs ih => exact fun g => ih (g.addWall r)
  have hhazards : ∀ (hs : List HazardSpec) (g : Grid),
      (hs.foldl (fun g h => g.addHazard h.kind h.cell) g).rearm =
        hs.foldl (fun g h => g.addHazard h.kind h.cell) g.rearm := by
    intro hs
    induction hs with
    | nil => exact fun _ => rfl
    | cons h hs ih =>
      intro g
      have hone : (g.addHazard h.kind h.cell).rearm = g.rearm.addHazard h.kind h.cell := by
        simp only [Grid.addHazard, Grid.rearm, Hazards.rearm_register]
      rw [List.foldl_cons, List.foldl_cons, ih, hone]
  rw [Config.grid, hhazards, hwalls]
  rfl

/-- The world of a level is reset already. -/
theorem Level.reset_world (l : Level) : l.world.reset = l.world := by
  simp only [Level.world, World.reset, Config.world, Config.rearm_grid]

namespace Session

variable {s s' : Session}

/-! ### What operations keep -/

@[simp] theorem narrate_world (s : Session) (e : Event) : (s.narrate e).world = s.world := by
  unfold narrate
  split <;> rfl

theorem reset_world_finish (s : Session) (o : Outcome) :
    (s.finish o).world.reset = s.world.reset := by
  cases o with
  | completed =>
    unfold finish
    dsimp only
    split <;> rfl
  | cancelled => exact World.reset_reset _
  | failed f => rfl

theorem reset_world_tick (s : Session) : s.tick.2.world.reset = s.world.reset := by
  cases hrun : s.run? with
  | none => rw [tick_of_none hrun]
  | some run =>
    have hreset : (s.machine run).step.2.world.reset = s.world.reset := Machine.reset_step _
    rcases hstep : (s.machine run).step with ⟨e | o, m⟩
    · rw [tick_of_applied hrun hstep, narrate_world]
      rwa [hstep] at hreset
    · rw [tick_of_finished hrun hstep, reset_world_finish]
      rwa [hstep] at hreset

theorem reset_world_of_tick {e? : Option Event} (h : s.tick = (e?, s')) :
    s'.world.reset = s.world.reset := by
  have htick := reset_world_tick s
  rwa [h] at htick

theorem reset_world_tickFor (s : Session) (t : Ticket) :
    (s.tickFor t).2.world.reset = s.world.reset := by
  unfold tickFor
  split
  · exact reset_world_tick s
  · rfl

theorem reset_world_runToCompletion (s : Session) :
    s.runToCompletion.2.world.reset = s.world.reset := by
  fun_induction runToCompletion s with
  | case1 s s' htick => exact reset_world_of_tick htick
  | case2 s e s' htick ih => exact ih.trans (reset_world_of_tick htick)

@[simp] theorem cancelTickets_run? (s : Session) (ts : List Ticket) :
    (s.cancelTickets ts).run? = s.run? := by
  induction ts generalizing s with
  | nil => rfl
  | cons t ts ih => exact ih (s.cancelTicket t)

@[simp] theorem cancelTickets_world (s : Session) (ts : List Ticket) :
    (s.cancelTickets ts).world = s.world := by
  induction ts generalizing s with
  | nil => rfl
  | cons t ts ih => exact ih (s.cancelTicket t)

theorem reset_world_runAwaiting {σ : Type} (s : Session) (wait : Event → StateM σ (List Ticket))
    (before : σ) : ((s.runAwaiting wait).run before).1.2.world.reset = s.world.reset := by
  induction s using pause_induction generalizing before with
  | pause s ih =>
    rcases hs : s.tick with ⟨e?, s'⟩
    cases e? with
    | none =>
      rw [runAwaiting_of_none hs]
      exact reset_world_of_tick hs
    | some e =>
      rw [runAwaiting_of_some hs]
      have hlater := ih e s' (wait e before).1 hs (wait e before).2
      rw [cancelTickets_world] at hlater
      exact hlater.trans (reset_world_of_tick hs)

theorem reset_world_start (s : Session) (source : String) :
    (s.start source).2.world.reset = s.world.reset := by
  unfold start
  split
  · rfl
  · rfl
  all_goals
    dsimp only
    split <;> exact World.reset_reset _

theorem reset_world_cancel (s : Session) : s.cancel.2.world.reset = s.world.reset := by
  unfold cancel
  split
  · rfl
  · exact World.reset_reset _

theorem reset_world_reset (s : Session) : s.reset.2.world.reset = s.world.reset := by
  unfold reset
  split
  · rfl
  · exact World.reset_reset _

/-- No operation changes what a reset gives. -/
theorem reset_world_apply (s : Session) (op : Operation) :
    (s.apply op).world.reset = s.world.reset := by
  cases op with
  | start source => exact reset_world_start s source
  | cancel => exact reset_world_cancel s
  | reset => exact reset_world_reset s
  | clear => rfl
  | tick => exact reset_world_tick s
  | tickFor t => exact reset_world_tickFor s t
  | runToCompletion => exact reset_world_runToCompletion s
  | runAwaiting wait before => exact reset_world_runAwaiting s wait before
  | cancelTicket t => rfl

theorem reset_world_after (s : Session) (ops : List Operation) :
    (s.after ops).world.reset = s.world.reset := by
  induction ops generalizing s with
  | nil => rfl
  | cons op ops ih => exact (ih (s.apply op)).trans (reset_world_apply s op)

/-! ### Operations that reset the world -/

theorem world_of_reset (h : s.reset.1 = .ok ()) : s.reset.2.world = s.world.reset := by
  unfold reset at h ⊢
  split at h
  · cases h
  · next hphase => rw [if_neg hphase]

theorem world_of_cancel (h : s.cancel.1 = true) : s.cancel.2.world = s.world.reset := by
  cases hrun : s.run? with
  | none =>
    rw [cancel, hrun] at h
    cases h
  | some run =>
    rw [cancel, hrun]
    rfl

/-- A program that is refused has reset the world before. -/
theorem world_of_start {source : String}
    (h : (s.start source).1 = .ok () ∨ ∃ e, (s.start source).1 = .error (.program e)) :
    (s.start source).2.world = s.world.reset := by
  unfold start at h ⊢
  cases hphase : s.phase with
  | running => simp [hphase] at h
  | won => simp [hphase] at h
  | idle | blocked =>
    dsimp only
    split <;> rfl

/-! ### Runs that end as cancelled -/

/-- An operation ends the active run, and what is kept as its outcome is that it was cancelled. -/
def EndsCancelled (s : Session) (op : Operation) : Prop :=
  (∃ run, s.run? = some run) ∧ (s.apply op).run? = none ∧
    (s.apply op).lastOutcome = some .cancelled

theorem finish_lastOutcome (s : Session) (o : Outcome) : (s.finish o).lastOutcome = some o := by
  cases o with
  | completed =>
    unfold finish
    dsimp only
    split <;> rfl
  | cancelled => rfl
  | failed f => rfl

/-- A tick that reports an event goes on with the run. -/
theorem run?_of_tick {e : Event} (h : s.tick = (some e, s')) : ∃ run, s'.run? = some run := by
  cases hrun : s.run? with
  | none =>
    rw [tick_of_none hrun] at h
    cases h
  | some run =>
    rcases hstep : (s.machine run).step with ⟨e' | o, m⟩
    · rw [tick_of_applied hrun hstep] at h
      obtain ⟨-, rfl⟩ := Prod.mk.inj h
      exact ⟨_, narrate_run? _ _⟩
    · rw [tick_of_finished hrun hstep] at h
      cases h

/-- The last tick of a run that was cancelled resets the world. -/
theorem world_of_last_tick (hrun : ∃ run, s.run? = some run) (h : s.tick = (none, s'))
    (houtcome : s'.lastOutcome = some .cancelled) : s'.world = s.world.reset := by
  obtain ⟨run, hrun⟩ := hrun
  have hreset : (s.machine run).step.2.world.reset = s.world.reset := Machine.reset_step _
  rcases hstep : (s.machine run).step with ⟨e | o, m⟩
  · rw [tick_of_applied hrun hstep] at h
    cases h
  · rw [tick_of_finished hrun hstep] at h
    obtain ⟨-, rfl⟩ := Prod.mk.inj h
    have ho : o = .cancelled := Option.some.inj ((finish_lastOutcome _ o).symm.trans houtcome)
    rw [hstep] at hreset
    rw [ho]
    exact hreset

theorem world_tick_of_cancelled (h : s.EndsCancelled .tick) : s.tick.2.world = s.world.reset := by
  obtain ⟨hrun, hended, houtcome⟩ := h
  simp only [apply] at hended houtcome
  rcases hs : s.tick with ⟨e?, s'⟩
  rw [hs] at hended houtcome
  cases e? with
  | none => exact world_of_last_tick hrun hs houtcome
  | some e =>
    obtain ⟨run, hrun'⟩ := run?_of_tick hs
    cases hended.symm.trans hrun'

theorem world_runToCompletion_of_cancelled (h : s.EndsCancelled .runToCompletion) :
    s.runToCompletion.2.world = s.world.reset := by
  obtain ⟨hrun, hended, houtcome⟩ := h
  simp only [apply] at hended houtcome
  fun_induction runToCompletion s with
  | case1 s s' htick => exact world_of_last_tick hrun htick houtcome
  | case2 s e s' htick ih =>
    exact (ih (run?_of_tick htick) hended houtcome).trans (reset_world_of_tick htick)

theorem world_runAwaiting_of_cancelled {σ : Type} {wait : Event → StateM σ (List Ticket)}
    {before : σ} (h : s.EndsCancelled (.runAwaiting wait before)) :
    ((s.runAwaiting wait).run before).1.2.world = s.world.reset := by
  induction s using pause_induction generalizing before with
  | pause s ih =>
    obtain ⟨hrun, hended, houtcome⟩ := h
    simp only [apply] at hended houtcome
    rcases hs : s.tick with ⟨e?, s'⟩
    cases e? with
    | none =>
      rw [runAwaiting_of_none hs] at houtcome ⊢
      exact world_of_last_tick hrun hs houtcome
    | some e =>
      rw [runAwaiting_of_some hs] at hended houtcome ⊢
      -- a pause may cancel the run, but does not end it
      have hpaused : ∃ run, (s'.cancelTickets (wait e before).1).run? = some run := by
        rw [cancelTickets_run?]
        exact run?_of_tick hs
      have hcancelled : (s'.cancelTickets (wait e before).1).EndsCancelled
          (.runAwaiting wait (wait e before).2) := ⟨hpaused, hended, houtcome⟩
      have hlater := ih e s' (wait e before).1 hs hcancelled
      rw [cancelTickets_world] at hlater
      exact hlater.trans (reset_world_of_tick hs)

/-- A run that ends as cancelled leaves a world that is reset. -/
theorem world_of_cancelled {op : Operation} (h : s.EndsCancelled op) :
    (s.apply op).world = s.world.reset := by
  obtain ⟨⟨run, hrun⟩, hended, houtcome⟩ := id h
  cases op with
  | tick => exact world_tick_of_cancelled h
  | runToCompletion => exact world_runToCompletion_of_cancelled h
  | runAwaiting wait before => exact world_runAwaiting_of_cancelled h
  | cancel => exact world_of_cancel (by rw [cancel, hrun])
  | tickFor t =>
    simp only [apply, tickFor] at hended houtcome ⊢
    split at hended
    · next hticket =>
      rw [if_pos hticket] at houtcome ⊢
      exact world_tick_of_cancelled ⟨⟨run, hrun⟩, hended, houtcome⟩
    · rw [hrun] at hended
      cases hended
  -- the other operations end no run
  | start source =>
    have hkept : (s.start source).2.run? ≠ none := by
      unfold start
      split
      · simp [hrun]
      · simp [hrun]
      all_goals
        dsimp only
        split
        · simp [say, hrun]
        · simp [launch]
    exact absurd hended hkept
  | reset =>
    have hkept : s.reset.2.run? = some run := by
      unfold reset
      split <;> exact hrun
    rw [apply, hkept] at hended
    cases hended
  | clear =>
    rw [apply, clear, hrun] at hended
    cases hended
  | cancelTicket t =>
    rw [apply, cancelTicket, hrun] at hended
    cases hended

/-! ### Restored levels -/

/-- The world of the session is the one that the level describes, and no further reset changes
it. -/
structure Restored (l : Level) (s : Session) : Prop where
  world : s.world = l.world
  reset_world : s.world.reset = s.world
  resets : ∀ n, (s.after (List.replicate n .reset)).world = s.world

theorem Restored.of_world {l : Level} (h : s.world = l.world) : Restored l s where
  world := h
  reset_world := by rw [h, l.reset_world]
  resets := by
    intro n
    induction n generalizing s with
    | zero => rfl
    | succ n ih =>
      -- a reset is refused or gives the world of the level once more
      have hone : s.reset.2.world = l.world := by
        unfold reset
        split
        · exact h
        · rw [h, l.reset_world]
      exact (ih hone).trans (hone.trans h.symm)

end Session

open Session

/-- The world of a session can always be put back to the one of its level. -/
theorem reset_world_of_level (l : Level) (ops : List Operation) :
    ((ofLevel l).after ops).world.reset = l.world := by
  rw [reset_world_after]
  exact l.reset_world

/-- Whatever has been done with a session, it is restored by a reset that is not refused, by
cancelling a run, by starting a program, whether or not it is accepted, and by the end of a run
that was cancelled. -/
theorem restored_after (l : Level) (ops : List Operation) :
    let s := (ofLevel l).after ops
    (s.reset.1 = .ok () → Restored l s.reset.2) ∧
      (s.cancel.1 = true → Restored l s.cancel.2) ∧
      (∀ source, (s.start source).1 = .ok () ∨ (∃ e, (s.start source).1 = .error (.program e)) →
        Restored l (s.start source).2) ∧
      ∀ op, s.EndsCancelled op → Restored l (s.apply op) := by
  intro s
  have hreset : s.world.reset = l.world := reset_world_of_level l ops
  refine ⟨fun h => .of_world ?_, fun h => .of_world ?_, fun source h => .of_world ?_,
    fun op h => .of_world ?_⟩
  · exact (world_of_reset h).trans hreset
  · exact (world_of_cancel h).trans hreset
  · exact (world_of_start h).trans hreset
  · exact (world_of_cancelled h).trans hreset

/-- After a run that put out the fire, and in the middle of one, every way to reset the level
restores it. -/
theorem restored_after_extinguishing :
    let l := Level.phaseOne
    let source := "forward 5 extinguish left forward 1"
    let finished := (ofLevel l).after [.start source, .runToCompletion]
    let running := (ofLevel l).after (.start source :: List.replicate 7 .tick)
    let told := running.cancelTicket 0
    (finished.world ≠ l.world ∧ finished.reset.1 = .ok () ∧ Restored l finished.reset.2) ∧
      (running.world ≠ l.world ∧ running.cancel.1 = true ∧ Restored l running.cancel.2) ∧
      ((finished.start "collect").1 = .ok () ∧ Restored l (finished.start "collect").2) ∧
      (told.world ≠ l.world ∧ told.EndsCancelled .tick ∧ Restored l (told.apply .tick)) := by
  intro l source finished running told
  let ticks : List Operation := .start source :: List.replicate 7 .tick
  have hreset : finished.reset.1 = .ok () := by decide +kernel
  have hcancel : running.cancel.1 = true := by decide +kernel
  have hstart : (finished.start "collect").1 = .ok () := by decide +kernel
  have hsome : told.run?.isSome = true := by decide +kernel
  have hnone : (told.apply .tick).run?.isNone = true := by decide +kernel
  have houtcome : (told.apply .tick).lastOutcome = some .cancelled := by decide +kernel
  have hended : told.EndsCancelled .tick :=
    ⟨Option.isSome_iff_exists.mp hsome, Option.isNone_iff_eq_none.mp hnone, houtcome⟩
  have hfinished : finished.world ≠ l.world := by decide +kernel
  have hrunning : running.world ≠ l.world := by decide +kernel
  have hreplay : told = (ofLevel l).after (ticks ++ [.cancelTicket 0]) := rfl
  refine ⟨⟨hfinished, hreset, ?_⟩, ⟨hrunning, hcancel, ?_⟩, ⟨hstart, ?_⟩, hrunning, hended, ?_⟩
  · exact (restored_after l [.start source, .runToCompletion]).1 hreset
  · exact (restored_after l ticks).2.1 hcancel
  · exact (restored_after l [.start source, .runToCompletion]).2.2.1 "collect" (.inl hstart)
  · rw [hreplay] at hended ⊢
    exact (restored_after l (ticks ++ [.cancelTicket 0])).2.2.2 .tick hended

end RobotPuzzle
