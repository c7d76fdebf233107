import RobotPuzzle.Proofs.Motion
import RobotPuzzle.Proofs.Quenching

/-!
# Events tell everything

Whoever has the world before a run and the events of the run needs nothing else to know the world
after it. Each event changes the world as it says and in no other way, and which event a step
reports is settled by the action that is due and by the world it finds. What no event speaks of
stays as it is: the board, where its hazards are and of which kind, where the crystal lies and where
the robot starts.

## Main definitions

* `Event.Tells` — what an event says of the action it reports and of the world before it
* `World.follow`, `World.replay` — the world after events, as they tell it
* `World.SameSetting` — what no event changes
* `Chronicle` — events that lead from one world to another
* `Machine.reported` — the events of a machine that is stepped and cancelled

## Main results

* `effect_iff_tells` — an action has just the effect that its event tells
* `Machine.chronicle_handled`, `Machine.chronicle_run` — the events of machines are chronicles
* `events_tell_everything` — along every run, events tell the world and the count
-/

namespace RobotPuzzle

/-! ### What an event tells -/

/-- What an event says of the action it reports and of the world that the action finds. -/
def Event.Tells (w : World) (a : Action) : Event → Prop
  | .moved source target burning =>
    (∃ heading cells, a = .move heading cells ∧ target = source.beside w.robot.facing heading) ∧
      source = w.robot.cell ∧ w.grid.Contains source ∧ w.grid.Passable target ∧
      (burning = true ↔ w.grid.Burning target)
  | .bumped stays wall =>
    (∃ heading cells, a = .move heading cells ∧ wall = stays.beside w.robot.facing heading) ∧
      stays = w.robot.cell ∧ w.grid.Contains stays ∧ ¬ w.grid.Passable wall
  | .turned facing =>
    a = .turnLeft ∧ facing = w.robot.facing.left ∨ a = .turnRight ∧ facing = w.robot.facing.right
  | .collected c =>
    a = .collect ∧ c = w.robot.cell ∧ c = w.crystal.cell ∧ w.crystal.collected = false
  | .collectMissed c =>
    a = .collect ∧ c = w.robot.cell ∧ ¬ (c = w.crystal.cell ∧ w.crystal.collected = false)
  | .extinguished c => a = .extinguish ∧ c = w.robot.cell ∧ w.grid.Burning c
  | .extinguishMissed c => a = .extinguish ∧ c = w.robot.cell ∧ ¬ w.grid.Burning c
  | .covered c => a = .cover ∧ c = w.robot.cell ∧ w.grid.Hazardous c
  | .coverMissed c => a = .cover ∧ c = w.robot.cell ∧ ¬ w.grid.Hazardous c

namespace World

/-- The world after an event, changed as the event says. -/
def follow (w : World) : Event → World
  | .moved _ target _ => { w with robot := { w.robot with cell := target } }
  | .turned facing => { w with robot := { w.robot with facing } }
  | .collected _ => { w with crystal := { w.crystal with collected := true } }
  | .extinguished c | .covered c => { w with grid := w.grid.quench c }
  | .bumped .. | .collectMissed _ | .extinguishMissed _ | .coverMissed _ => w

/-- The world after several events. -/
def replay (w : World) (es : List Event) : World := es.foldl follow w

@[simp] theorem replay_nil (w : World) : w.replay [] = w := rfl

@[simp] theorem replay_cons (w : World) (e : Event) (es : List Event) :
    w.replay (e :: es) = (w.follow e).replay es := rfl

theorem replay_append (w : World) (es fs : List Event) :
    w.replay (es ++ fs) = (w.replay es).replay fs := List.foldl_append

/-- What no event changes: the board, the cells and kinds of its hazards in their order and what
they are when they are rearmed, the cell of the crystal and where the robot starts. -/
structure SameSetting (w v : World) : Prop where
  size : v.grid.size = w.grid.size
  walls : v.grid.walls = w.grid.walls
  hazards : v.grid.hazards.map (fun h => (h.cell, h.kind)) =
    w.grid.hazards.map fun h => (h.cell, h.kind)
  rearmed : v.grid.hazards.rearm = w.grid.hazards.rearm
  crystal : v.crystal.cell = w.crystal.cell
  spawn : v.spawn = w.spawn

theorem SameSetting.refl (w : World) : w.SameSetting w := ⟨rfl, rfl, rfl, rfl, rfl, rfl⟩

theorem sameSetting_follow (w : World) (e : Event) : w.SameSetting (w.follow e) := by
  cases e with
  | extinguished c | covered c =>
    exact ⟨rfl, rfl, w.grid.hazards.map_quench c, w.grid.hazards.rearm_quench c, rfl, rfl⟩
  | _ => exact ⟨rfl, rfl, rfl, rfl, rfl, rfl⟩

theorem sameSetting_replay (w : World) (es : List Event) : w.SameSetting (w.replay es) := by
  induction es generalizing w with
  | nil => exact .refl w
  | cons e es ih =>
    have hfirst := w.sameSetting_follow e
    have hlater := ih (w.follow e)
    exact ⟨hlater.size.trans hfirst.size, hlater.walls.trans hfirst.walls,
      hlater.hazards.trans hfirst.hazards, hlater.rearmed.trans hfirst.rearmed,
      hlater.crystal.trans hfirst.crystal, hlater.spawn.trans hfirst.spawn⟩

end World

section Effect

variable {w v : World} {a : Action} {e e' : Event}

/-- An action has just the effect that its event tells: what the event says of it is so, and the
world is changed accordingly. -/
theorem effect_iff_tells : Effect w a e v ↔ e.Tells w a ∧ v = w.follow e := by
  constructor
  · intro h
    cases h with
    | moved inside free =>
      exact ⟨⟨⟨_, _, rfl, w.robot.ahead_eq_beside _⟩, rfl, inside, free, Grid.onFire_iff⟩, rfl⟩
    | bumped inside blocked =>
      exact ⟨⟨⟨_, _, rfl, w.robot.ahead_eq_beside _⟩, rfl, inside, blocked⟩, rfl⟩
    | turnedLeft => exact ⟨.inl ⟨rfl, rfl⟩, rfl⟩
    | turnedRight => exact ⟨.inr ⟨rfl, rfl⟩, rfl⟩
    | collected here there => exact ⟨⟨rfl, rfl, here, there⟩, rfl⟩
    | collectMissed missed => exact ⟨⟨rfl, rfl, missed⟩, rfl⟩
    | extinguished fire =>
      obtain ⟨hburning, rfl⟩ := Grid.deactivate?_fire_eq_some_iff.mp fire
      exact ⟨⟨rfl, rfl, hburning⟩, rfl⟩
    | extinguishMissed missed =>
      exact ⟨⟨rfl, rfl, Grid.deactivate?_fire_eq_none_iff.mp missed⟩, rfl⟩
    | covered hazard =>
      obtain ⟨hhazardous, rfl⟩ := Grid.deactivate?_any_eq_some_iff.mp hazard
      exact ⟨⟨rfl, rfl, hhazardous⟩, rfl⟩
    | coverMissed missed =>
      exact ⟨⟨rfl, rfl, Grid.deactivate?_any_eq_none_iff.mp missed⟩, rfl⟩
  · rintro ⟨htells, rfl⟩
    cases e with
    | moved source target burning =>
      obtain ⟨⟨heading, cells, rfl, rfl⟩, rfl, hinside, hfree, hburning⟩ := htells
      -- the flag of the event is the one that the board gives
      have hflag : burning = w.grid.onFire (w.robot.ahead heading) := by
        rw [Bool.eq_iff_iff, hburning, w.robot.ahead_eq_beside]
        exact Grid.onFire_iff.symm
      rw [← w.robot.ahead_eq_beside] at hfree ⊢
      rw [hflag]
      exact .moved hinside hfree
    | bumped stays wall =>
      obtain ⟨⟨heading, cells, rfl, rfl⟩, rfl, hinside, hblocked⟩ := htells
      rw [← w.robot.ahead_eq_beside] at hblocked ⊢
      exact .bumped hinside hblocked
    | turned facing =>
      obtain ⟨rfl, rfl⟩ | ⟨rfl, rfl⟩ := htells
      · exact .turnedLeft
      · exact .turnedRight
    | collected c =>
      obtain ⟨rfl, rfl, hhere, hthere⟩ := htells
      exact .collected hhere hthere
    | collectMissed c =>
      obtain ⟨rfl, rfl, hmissed⟩ := htells
      exact .collectMissed hmissed
    | extinguished c =>
      obtain ⟨rfl, rfl, hburning⟩ := htells
      exact .extinguished (Grid.deactivate?_fire_eq_some_iff.mpr ⟨hburning, rfl⟩)
    | extinguishMissed c =>
      obtain ⟨rfl, rfl, hmissed⟩ := htells
      exact .extinguishMissed (Grid.deactivate?_fire_eq_none_iff.mpr hmissed)
    | covered c =>
      obtain ⟨rfl, rfl, hhazardous⟩ := htells
      exact .covered (Grid.deactivate?_any_eq_some_iff.mpr ⟨hhazardous, rfl⟩)
    | coverMissed c =>
      obtain ⟨rfl, rfl, hmissed⟩ := htells
      exact .coverMissed (Grid.deactivate?_any_eq_none_iff.mpr hmissed)

/-- Of all events, only the one reported tells what the action finds. -/
theorem Effect.tells_iff (h : Effect w a e v) : e'.Tells w a ↔ e' = e := by
  constructor
  · intro htells
    -- performing an action is a function, so it reports no second event
    have hother : Effect w a e' (w.follow e') := effect_iff_tells.mpr ⟨htells, rfl⟩
    have hboth := (Action.perform_eq_ok_iff.mpr hother).symm.trans (Action.perform_eq_ok_iff.mpr h)
    exact (Prod.mk.inj (Except.ok.inj hboth)).1
  · rintro rfl
    exact (effect_iff_tells.mp h).1

end Effect

/-! ### Chronicles -/

/-- Events that lead from one world to another, each the event of some action. -/
inductive Chronicle : World → List Event → World → Prop
  | nil {w : World} : Chronicle w [] w
  | cons {w v u : World} {a : Action} {e : Event} {es : List Event} :
    Effect w a e v → Chronicle v es u → Chronicle w (e :: es) u

namespace Chronicle

variable {w v u : World} {a : Action} {e : Event} {es fs : List Event}

theorem single (h : Effect w a e v) : Chronicle w [e] v := .cons h .nil

theorem append (h : Chronicle w es v) (h' : Chronicle v fs u) : Chronicle w (es ++ fs) u := by
  induction h with
  | nil => exact h'
  | cons heffect _ ih => exact .cons heffect (ih h')

/-- Replaying a chronicle leads to its last world. -/
theorem eq_replay (h : Chronicle w es v) : v = w.replay es := by
  induction h with
  | nil => rfl
  | cons heffect _ ih => rw [World.replay_cons, ← (effect_iff_tells.mp heffect).2, ih]

end Chronicle

/-! ### The events of machines -/

/-- The event of a step, if it was one that was applied. -/
def Step.event? : Step → Option Event
  | .applied e => some e
  | .finished _ => none

namespace Machine

/-- The events that a machine reports while it is stepped and cancelled. -/
def reported (m : Machine) : List Touch → List Event
  | [] => []
  | .step :: ts => m.step.1.event?.toList ++ m.step.2.reported ts
  | .cancel :: ts => m.cancel.reported ts

/-- An event of a step is one that leads to the world after it, and there is no other change. -/
theorem chronicle_step (m : Machine) :
    Chronicle m.world m.step.1.event?.toList m.step.2.world ∧
      m.step.2.context.count = m.context.count + m.step.1.event?.toList.length := by
  rcases hstep : m.step with ⟨s, m'⟩
  cases advance_of_step hstep with
  | performed live untold due left effect => exact ⟨.single effect, rfl⟩
  | ended | cancelled | completed | spent | faulted => exact ⟨.nil, rfl⟩

/-- The events of a machine tell how its world came about, and their number is what was counted. -/
theorem chronicle_handled (m : Machine) (ts : List Touch) :
    Chronicle m.world (m.reported ts) (m.handled ts).world ∧
      (m.handled ts).context.count = m.context.count + (m.reported ts).length := by
  induction ts generalizing m with
  | nil => exact ⟨.nil, rfl⟩
  | cons t ts ih =>
    cases t with
    | step =>
      obtain ⟨hfirst, hcount⟩ := m.chronicle_step
      obtain ⟨hlater, hcount'⟩ := ih m.step.2
      refine ⟨hfirst.append hlater, ?_⟩
      rw [handled_step, hcount', hcount, reported, List.length_append, Nat.add_assoc]
    | cancel => exact ih m.cancel

theorem chronicle_run (m : Machine) :
    Chronicle m.world m.run.events m.run.machine.world ∧
      m.run.machine.context.count = m.context.count + m.run.events.length := by
  induction hn : m.context.budget - m.context.count using Nat.strongRecOn generalizing m with
  | _ n ih =>
    subst hn
    obtain ⟨hfirst, hcount⟩ := m.chronicle_step
    rcases hstep : m.step with ⟨e | o, m'⟩
    · rw [hstep] at hfirst hcount
      obtain ⟨hlt, hcontext⟩ := step_applied hstep
      have hfewer : m'.context.budget - m'.context.count < m.context.budget - m.context.count := by
        simp only [hcontext]
        omega
      obtain ⟨hlater, hcount'⟩ := ih _ hfewer m' rfl
      rw [run_of_applied hstep]
      refine ⟨hfirst.append hlater, ?_⟩
      rw [hcount', hcount]
      simp only [Step.event?, Option.toList_some, List.length_cons, List.length_nil]
      omega
    · rw [hstep] at hfirst hcount
      rw [run_of_finished hstep]
      exact ⟨hfirst, hcount⟩

end Machine

open Machine

/-- Along every run of some commands, whatever the world and the context and however often it is
cancelled: a step reports the only event that tells what the action due finds in the world, changes
the world as the event says, and is counted; an end of the run changes neither world nor count. So
the world and the count at any time are those that the events so far tell, and so they are at the
end of the run. What events do not speak of is never changed. -/
theorem events_tell_everything (w : World) (cs : List Command) (c : Context) (ts : List Touch) :
    let start : Machine := { world := w, executor := .ofCommands cs, context := c }
    let m := start.handled ts
    (∀ e, m.step.1 = .applied e → ∃ a rest, next? m.world m.executor.pending = some (a, rest) ∧
        (∀ e' : Event, e'.Tells m.world a ↔ e' = e) ∧ m.step.2.world = m.world.follow e ∧
        m.step.2.context = { m.context with count := m.context.count + 1 }) ∧
      (∀ o, m.step.1 = .finished o → m.step.2.world = m.world ∧ m.step.2.context = m.context) ∧
      (m.world = w.replay (start.reported ts) ∧
        m.context.count = c.count + (start.reported ts).length) ∧
      (m.run.machine.world = m.world.replay m.run.events ∧
        m.run.machine.context.count = m.context.count + m.run.events.length) ∧
      w.SameSetting m.world ∧ w.SameSetting m.run.machine.world := by
  intro start m
  obtain ⟨htold, hcount⟩ := start.chronicle_handled ts
  obtain ⟨htold', hcount'⟩ := m.chronicle_run
  have hworld : m.world = w.replay (start.reported ts) := htold.eq_replay
  have hlast : m.run.machine.world = m.world.replay m.run.events := htold'.eq_replay
  refine ⟨fun e he => ?_, fun o ho => ?_, ⟨hworld, hcount⟩, ⟨hlast, hcount'⟩, ?_, ?_⟩
  · rcases hstep : m.step with ⟨s, m'⟩
    rw [hstep] at he
    obtain rfl : s = .applied e := he
    cases advance_of_step hstep with
    | @performed a rest _ _ live untold due left effect =>
      exact ⟨a, rest, due, fun e' => effect.tells_iff, (effect_iff_tells.mp effect).2, rfl⟩
  · obtain ⟨hsame, hcontext, -⟩ := step_of_finished (Prod.ext ho rfl)
    exact ⟨hsame, hcontext⟩
  · rw [hworld]
    exact w.sameSetting_replay _
  · rw [hlast, hworld, ← World.replay_append]
    exact w.sameSetting_replay _

/-- A robot that walks into the fire, puts it out, tries to cover it, bumps into the wall and is
cancelled when it misses the crystal. -/
theorem events_tell_everything_into_fire :
    let w := Level.phaseOne.world
    let cs : List Command := [.loop 5 [.act (.move .forward 1)],
      .branch false [.act .extinguish] [], .act .cover, .act .turnLeft, .act (.move .forward 1),
      .loop 9 [.act .collect]]
    let start : Machine := { world := w, executor := .ofCommands cs, context := { budget := 20 } }
    let burning := start.handled (List.replicate 5 .step)
    let told := start.handled (List.replicate 10 .step ++ [.cancel])
    let events : List Event := [.moved ⟨0, 5⟩ ⟨1, 5⟩ false, .moved ⟨1, 5⟩ ⟨2, 5⟩ false,
      .moved ⟨2, 5⟩ ⟨3, 5⟩ false, .moved ⟨3, 5⟩ ⟨4, 5⟩ false, .moved ⟨4, 5⟩ ⟨5, 5⟩ true,
      .extinguished ⟨5, 5⟩, .coverMissed ⟨5, 5⟩, .turned .north, .bumped ⟨5, 5⟩ ⟨5, 4⟩,
      .collectMissed ⟨5, 5⟩]
    (burning.step.1 = .applied (.extinguished ⟨5, 5⟩) ∧
        burning.step.2.world = burning.world.follow (.extinguished ⟨5, 5⟩) ∧
        (Event.extinguished ⟨5, 5⟩).Tells burning.world .extinguish) ∧
      (told.step.1 = .finished .cancelled ∧ told.step.2.world = told.world) ∧
      told.world = w.replay events ∧ told.context.count = events.length := by
  intro w cs start burning told events
  have hburning : burning.step.1 = .applied (.extinguished ⟨5, 5⟩) := by decide +kernel
  have htold : told.step.1 = .finished .cancelled := by decide +kernel
  have hevents : start.reported (List.replicate 10 .step ++ [.cancel]) = events := by
    decide +kernel
  obtain ⟨happlied, -⟩ :=
    events_tell_everything w cs { budget := 20 } (List.replicate 5 .step)
  obtain ⟨-, hfinished, ⟨hreplay, hcount⟩, -⟩ :=
    events_tell_everything w cs { budget := 20 } (List.replicate 10 .step ++ [.cancel])
  obtain ⟨a, rest, hnext, htells, hfollow, -⟩ := happlied _ hburning
  obtain rfl : a = .extinguish := ((htells _).mpr rfl).1
  rw [hevents] at hreplay hcount
  exact ⟨⟨hburning, hfollow, (htells _).mpr rfl⟩, ⟨htold, (hfinished _ htold).1⟩, hreplay,
    hcount.trans (Nat.zero_add _)⟩

end RobotPuzzle
