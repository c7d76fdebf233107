import RobotPuzzle.Level.Basic
import RobotPuzzle.Proofs.Course

/-!
# Machines follow the meaning of their commands

Whoever drives a machine step by step sees one event after the other, each with the world and the
count it leads to, and an outcome at the end. A machine with a queue of commands shows exactly
what carrying out the meaning of the commands shows under the same budget, and when it is
cancelled at the same point.

## Main definitions

* `Log` — what is seen of a run
* `Machine.watch` — a machine driven to its end, cancelled after some number of steps or never
* `Course.log` — what is seen of a course that nothing restricts
* `Course.under` — what is seen of a course under a budget and a cancellation

## Main results

* `watch_eq_under` — a machine follows the course of its queue under every context
* `under_eq_log` — a sufficient budget does not restrict a course
* `machine_follows_course` — a machine with a sufficient budget shows the whole course
-/

namespace RobotPuzzle

/-- What is seen of an applied step: the event, and the world and the count after it. -/
structure Beat where
  event : Event
  world : World
  count : Nat
  deriving DecidableEq, Repr

/-- What is seen of a run: its steps and its outcome, with the world and the count at its end. -/
structure Log where
  beats : List Beat
  outcome : Outcome
  world : World
  count : Nat
  deriving DecidableEq, Repr

namespace Log

/-- What is seen of a run that ends at once. -/
def ended (w : World) (count : Nat) (o : Outcome) : Log :=
  { beats := [], outcome := o, world := w, count }

/-- One more step at the beginning. -/
def after (l : Log) (b : Beat) : Log := { l with beats := b :: l.beats }

end Log

/-- The context as the next step finds it. `stop?` is the number of steps after which the run is
to be cancelled, if it ever is. -/
def Context.heed (c : Context) (stop? : Option Nat) : Context :=
  if stop? = some 0 then { c with cancelled := true } else c

@[simp] theorem Context.heed_budget (c : Context) (stop? : Option Nat) :
    (c.heed stop?).budget = c.budget := by
  unfold heed
  split <;> rfl

@[simp] theorem Context.heed_count (c : Context) (stop? : Option Nat) :
    (c.heed stop?).count = c.count := by
  unfold heed
  split <;> rfl

/-- A run that goes on finds its context as it was. -/
theorem Context.heed_eq_self {c : Context} {stop? : Option Nat}
    (h : (c.heed stop?).cancelled = false) : c.heed stop? = c := by
  unfold heed at h ⊢
  split at h
  · cases h
  · next hstop => rw [if_neg hstop]

namespace Machine

/-- Drives a machine to its end, and cancels it after the given number of steps, if it is still
running then. -/
def watch (m : Machine) (stop? : Option Nat) : Log :=
  match _h : ({ m with context := m.context.heed stop? } : Machine).step with
  | (.finished o, m') => .ended m'.world m'.context.count o
  | (.applied e, m') =>
    (m'.watch (stop?.map (· - 1))).after ⟨e, m'.world, m'.context.count⟩
termination_by m.context.budget - m.context.count
decreasing_by
  obtain ⟨hlt, hcontext⟩ := step_applied _h
  simp only [hcontext, Context.heed_budget, Context.heed_count] at *
  omega

theorem watch_of_finished {m m' : Machine} {stop? : Option Nat} {o : Outcome}
    (h : ({ m with context := m.context.heed stop? } : Machine).step = (.finished o, m')) :
    m.watch stop? = .ended m'.world m'.context.count o := by
  rw [watch]
  split
  · next he =>
    rw [h] at he
    cases he
    rfl
  · next he => simp [h] at he

theorem watch_of_applied {m m' : Machine} {stop? : Option Nat} {e : Event}
    (h : ({ m with context := m.context.heed stop? } : Machine).step = (.applied e, m')) :
    m.watch stop? = (m'.watch (stop?.map (· - 1))).after ⟨e, m'.world, m'.context.count⟩ := by
  rw [watch]
  split
  · next he => simp [h] at he
  · next he =>
    rw [h] at he
    cases he
    rfl

/-- A machine that ends at its next step shows its world and count as they are. -/
theorem watch_of_finish {m : Machine} {stop? : Option Nat} {o : Outcome}
    (h : ({ m with context := m.context.heed stop? } : Machine).step =
      ({ m with context := m.context.heed stop? } : Machine).finish o) :
    m.watch stop? = .ended m.world m.context.count o := by
  rw [watch_of_finished h]
  exact congrArg (Log.ended m.world · o) (Context.heed_count m.context stop?)

end Machine

namespace Course

/-- What is seen of a course that begins in `w` after `count` steps, if nothing restricts it. -/
def log : Course → World → Nat → Log
  | .done, w, count => .ended w count .completed
  | .fault f, w, count => .ended w count (.failed f)
  | .step e v later, _, count => (later.log v (count + 1)).after ⟨e, v, count + 1⟩

/-- The budget that a course takes. A step that turns out to be a fault is one that a budget has
to allow. -/
def demand : Course → Nat
  | .done => 0
  | .fault _ => 1
  | .step _ _ later => later.demand + 1

/-- What is seen of a course under a context. Before anything else the run may have been
cancelled. A further step has to be within the budget, and only then it is taken or turns out to
be a fault. -/
def under : Course → World → Context → Option Nat → Log
  | .done, w, c, stop? =>
    .ended w c.count (if (c.heed stop?).cancelled then .cancelled else .completed)
  | .fault f, w, c, stop? =>
    .ended w c.count
      (if (c.heed stop?).cancelled then .cancelled
      else if c.budget ≤ c.count then .failed (.budgetOverrun c.budget)
      else .failed f)
  | .step e v later, w, c, stop? =>
    if (c.heed stop?).cancelled then .ended w c.count .cancelled
    else if c.budget ≤ c.count then .ended w c.count (.failed (.budgetOverrun c.budget))
    else
      (later.under v { c with count := c.count + 1 } (stop?.map (· - 1))).after
        ⟨e, v, c.count + 1⟩

variable {w : World} {c : Context} {stop? : Option Nat}

/-- A cancelled course does nothing more. -/
theorem under_of_cancelled (course : Course) (h : (c.heed stop?).cancelled = true) :
    course.under w c stop? = .ended w c.count .cancelled := by
  cases course <;> simp [under, h]

/-- A course that does not end here finds its budget used up. -/
theorem under_of_spent {step : Except Fault (Event × World)} {next : World → Course}
    (h : (c.heed stop?).cancelled = false) (hspent : c.budget ≤ c.count) :
    ((ofStep step).andThen w next).under w c stop? =
      .ended w c.count (.failed (.budgetOverrun c.budget)) := by
  cases step with
  | error f => simp [ofStep, andThen, under, h, hspent]
  | ok r => simp [ofStep, andThen, under, h, hspent]

theorem under_of_fault {f : Fault} {next : World → Course}
    (h : (c.heed stop?).cancelled = false) (hopen : ¬ c.budget ≤ c.count) :
    ((ofStep (.error f)).andThen w next).under w c stop? = .ended w c.count (.failed f) := by
  simp [ofStep, andThen, under, h, hopen]

theorem under_of_performed {e : Event} {v : World} {next : World → Course}
    (h : (c.heed stop?).cancelled = false) (hopen : ¬ c.budget ≤ c.count) :
    ((ofStep (.ok (e, v))).andThen w next).under w c stop? =
      ((next v).under v { c with count := c.count + 1 } (stop?.map (· - 1))).after
        ⟨e, v, c.count + 1⟩ := by
  simp [ofStep, andThen, under, h, hopen]

/-- A budget that covers the demand of a course does not restrict it. -/
theorem under_eq_log (course : Course) (hc : c.cancelled = false)
    (hb : c.count + course.demand ≤ c.budget) :
    course.under w c none = course.log w c.count := by
  induction course generalizing w c with
  | done => simp [under, log, Context.heed, hc]
  | fault f =>
    rw [demand] at hb
    have hopen : ¬ c.budget ≤ c.count := by omega
    simp [under, log, Context.heed, hc, hopen]
  | step e v later ih =>
    rw [demand] at hb
    have hheed : ¬ (c.heed none).cancelled = true := by simp [Context.heed, hc]
    have hopen : ¬ c.budget ≤ c.count := by omega
    have hlater : later.under v { c with count := c.count + 1 } none = later.log v (c.count + 1) :=
      ih hc (by simp only; omega)
    rw [under, if_neg hheed, if_neg hopen, Option.map_none, hlater, log]

end Course

open Course Machine

section Watch

variable {w : World} {cs rest : List Command} {c : Context} {stop? : Option Nat} {a : Action}

/-- A machine that cannot pay for the first action of its queue. -/
theorem watch_of_spent (hc : (c.heed stop?).cancelled = false)
    (hnext : next? w cs = some (a, rest)) (hspent : c.budget ≤ c.count) :
    ({ world := w, executor := .ofCommands cs, context := c } : Machine).watch stop? =
      .ended w c.count (.failed (.budgetOverrun c.budget)) := by
  have hheed : c.heed stop? = c := Context.heed_eq_self hc
  have hused : (c.heed stop?).budget ≤ (c.heed stop?).count := by rwa [hheed]
  rw [watch_of_finish (step_of_spent rfl hc hnext hused), hheed]

/-- A machine that can pay for the first action of its queue, which is a fault. -/
theorem watch_of_fault {f : Fault} (hc : (c.heed stop?).cancelled = false)
    (hnext : next? w cs = some (a, rest)) (hopen : ¬ c.budget ≤ c.count)
    (hperform : a.perform w = .error f) :
    ({ world := w, executor := .ofCommands cs, context := c } : Machine).watch stop? =
      .ended w c.count (.failed f) := by
  have hunused : ¬ (c.heed stop?).budget ≤ (c.heed stop?).count := by
    rwa [Context.heed_eq_self hc]
  rw [watch_of_finish (step_of_fault rfl hc hnext hunused hperform)]

/-- A machine that performs the first action of its queue goes on with what is left of it before
the rest of the queue. -/
theorem watch_of_performed {e : Event} {v : World} (hc : (c.heed stop?).cancelled = false)
    (hnext : next? w cs = some (a, rest)) (hopen : ¬ c.budget ≤ c.count)
    (hperform : a.perform w = .ok (e, v)) :
    ({ world := w, executor := .ofCommands cs, context := c } : Machine).watch stop? =
      (({ world := v
          executor := .ofCommands (a.rest ++ rest)
          context := { c with count := c.count + 1 } } : Machine).watch
        (stop?.map (· - 1))).after ⟨e, v, c.count + 1⟩ := by
  have hheed : c.heed stop? = c := Context.heed_eq_self hc
  have hunused : ¬ (c.heed stop?).budget ≤ (c.heed stop?).count := by rwa [hheed]
  rw [watch_of_applied (step_of_performed rfl hc hnext hunused hperform)]
  simp only [hheed]
  rfl

end Watch

/-- A machine whose queue was never touched shows what carrying out the course of its commands
shows, whatever the budget, and wherever the run is cancelled. -/
theorem watch_eq_under (w : World) (cs : List Command) (c : Context) (stop? : Option Nat) :
    ({ world := w, executor := .ofCommands cs, context := c } : Machine).watch stop? =
      (courseOf cs w).under w c stop? := by
  -- the budget left bounds the steps to come
  induction hn : c.budget - c.count using Nat.strongRecOn generalizing w cs c stop? with
  | _ n ih =>
    subst hn
    cases hcancelled : (c.heed stop?).cancelled with
    | true =>
      -- a cancelled run does not even look at its queue
      rw [under_of_cancelled _ hcancelled]
      exact watch_of_finish (step_of_cancelled rfl hcancelled)
    | false =>
      cases hnext : next? w cs with
      | none =>
        -- whatever the budget, since nothing more is asked of it
        rw [courseOf_of_next?_none hnext, under, hcancelled]
        exact watch_of_finish (step_of_none rfl hcancelled hnext)
      | some next =>
        obtain ⟨a, rest⟩ := next
        rw [courseOf_of_next? hnext]
        by_cases hspent : c.budget ≤ c.count
        · rw [under_of_spent hcancelled hspent, watch_of_spent hcancelled hnext hspent]
        · cases hperform : a.perform w with
          | error f =>
            rw [under_of_fault hcancelled hspent,
              watch_of_fault hcancelled hnext hspent hperform]
          | ok r =>
            obtain ⟨e, v⟩ := r
            have hlater := ih (c.budget - (c.count + 1)) (by omega) v (a.rest ++ rest)
              { c with count := c.count + 1 } (stop?.map (· - 1)) rfl
            rw [under_of_performed hcancelled hspent,
              watch_of_performed hcancelled hnext hspent hperform, hlater]

/-- A machine that is not cancelled and whose budget is enough for the course of its commands
shows that course: the same events, the same world and count after each of them, and the same
outcome. -/
theorem machine_follows_course {w : World} {cs : List Command} {c : Context}
    (hc : c.cancelled = false) (hb : c.count + (courseOf cs w).demand ≤ c.budget) :
    ({ world := w, executor := .ofCommands cs, context := c } : Machine).watch none =
      (courseOf cs w).log w c.count := by
  rw [watch_eq_under, under_eq_log _ hc hb]

/-- A robot off the board can turn, but not move. -/
theorem machine_follows_course_off_board :
    let w : World := { Level.phaseOne.world with robot := ⟨⟨-1, 5⟩, .east⟩ }
    let cs : List Command :=
      [.loop 2 [.act .turnLeft, .loop 0 [.act .collect]],
        .branch true [.act (.move .forward 0)] [], .act .cover]
    let c : Context := { budget := 4, count := 1 }
    c.cancelled = false ∧ c.count + (courseOf cs w).demand ≤ c.budget ∧
      ({ world := w, executor := .ofCommands cs, context := c } : Machine).watch none =
        (courseOf cs w).log w c.count ∧
      ((courseOf cs w).log w c.count).outcome = .failed (.offGrid ⟨-1, 5⟩) := by
  intro w cs c
  have hc : c.cancelled = false := rfl
  have hb : c.count + (courseOf cs w).demand ≤ c.budget := by decide +kernel
  exact ⟨hc, hb, machine_follows_course hc hb, by decide +kernel⟩

end RobotPuzzle
