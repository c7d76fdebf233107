import RobotPuzzle.Proofs.Bound
import RobotPuzzle.Proofs.Stepping
import RobotPuzzle.Proofs.Watch

/-!
# Runs that are cut short

A run may be cancelled or use up its budget, between two events of a program as well as in the
middle of a move. Either way it has shown the beginning of what it would have shown otherwise, and
world and count stay as the last step has left them. A cancelled run ends so even if nothing is
left to be done. A budget that is used up ends a run only if another action is due; what comes to
nothing does not need a budget. A run that is over stays so.

## Main definitions

* `Log.cut` — the beginning of a log, with an outcome of its own

## Main results

* `courseOf_induction` — the course of a queue, by what comes first in it
* `Course.demand_courseOf_le` — the longest way through commands covers the demand of their course
* `Course.under_some` — a cancelled course is a beginning of the same course
* `Course.under_of_demand` — a course that its budget does not cover is a beginning of it
* `due_iff` — when an action is due to a machine after some steps
* `run_cut_short` — what cancellations and budgets leave of every run
-/

namespace RobotPuzzle

/-- The world after some steps that begin in `w`. -/
def worldAfter (w : World) (beats : List Beat) : World := beats.foldl (fun _ b => b.world) w

@[simp] theorem worldAfter_nil (w : World) : worldAfter w [] = w := rfl

@[simp] theorem worldAfter_cons (w : World) (b : Beat) (beats : List Beat) :
    worldAfter w (b :: beats) = worldAfter b.world beats := rfl

namespace Log

/-- The first `k` steps of a log that begins in `w` after `count` steps, with an outcome of its
own. -/
def cut (l : Log) (w : World) (count k : Nat) (o : Outcome) : Log where
  beats := l.beats.take k
  outcome := o
  world := worldAfter w (l.beats.take k)
  count := count + k

@[simp] theorem cut_zero (l : Log) (w : World) (count : Nat) (o : Outcome) :
    l.cut w count 0 o = .ended w count o := rfl

/-- A step at the beginning counts for the cut. -/
theorem cut_after (l : Log) (w v : World) (e : Event) (count k : Nat) (o : Outcome) :
    (l.after ⟨e, v, count + 1⟩).cut w count (k + 1) o =
      (l.cut v (count + 1) k o).after ⟨e, v, count + 1⟩ := by
  have hcount : count + (k + 1) = count + 1 + k := by omega
  simp only [cut, after, List.take_succ_cons, worldAfter_cons, hcount]

end Log

/-- What is shown of the course of a queue by looking at what comes first in it: nothing, a fault,
or a step and then the course of what is left. -/
theorem courseOf_induction {motive : List Command → World → Course → Prop}
    (done : ∀ cs w, next? w cs = none → motive cs w .done)
    (fault : ∀ cs w a rest f, next? w cs = some (a, rest) → a.perform w = .error f →
      motive cs w (.fault f))
    (step : ∀ cs w a rest e v, next? w cs = some (a, rest) → a.perform w = .ok (e, v) →
      motive (a.rest ++ rest) v (courseOf (a.rest ++ rest) v) →
      motive cs w (.step e v (courseOf (a.rest ++ rest) v)))
    (cs : List Command) (w : World) : motive cs w (courseOf cs w) := by
  -- the way that is left becomes shorter with every step
  induction hn : boundOf cs using Nat.strongRecOn generalizing cs w with
  | _ n ih =>
    subst hn
    cases hnext : next? w cs with
    | none =>
      rw [courseOf_of_next?_none hnext]
      exact done cs w hnext
    | some next =>
      obtain ⟨a, rest⟩ := next
      rw [courseOf_of_next? hnext]
      cases hperform : a.perform w with
      | error f => exact fault cs w a rest f hnext hperform
      | ok r =>
        obtain ⟨e, v⟩ := r
        have hshorter : boundOf (a.rest ++ rest) < boundOf cs := by
          have hbound := boundOf_of_next? hnext
          have hrest := a.boundOf_rest
          rw [boundOf_append]
          omega
        exact step cs w a rest e v hnext hperform (ih _ hshorter _ _ rfl)

namespace Course

/-- The longest way through some commands covers the demand of their course. -/
theorem demand_courseOf_le (cs : List Command) (w : World) :
    (courseOf cs w).demand ≤ boundOf cs := by
  induction cs, w using courseOf_induction with
  | done cs w hnext => exact Nat.zero_le _
  | fault cs w a rest f hnext hperform =>
    have hbound := boundOf_of_next? hnext
    have hrest := a.boundOf_rest
    rw [demand]
    omega
  | step cs w a rest e v hnext hperform ih =>
    have hbound := boundOf_of_next? hnext
    have hrest := a.boundOf_rest
    rw [boundOf_append] at ih
    rw [demand]
    omega

/-- A course never speaks of budgets by itself. -/
theorem outcome_log_courseOf_ne (cs : List Command) (w : World) (count budget : Nat) :
    ((courseOf cs w).log w count).outcome ≠ .failed (.budgetOverrun budget) := by
  induction cs, w using courseOf_induction generalizing count with
  | done cs w hnext => simp [log, Log.ended]
  | fault cs w a rest f hnext hperform =>
    obtain ⟨-, -, rfl⟩ := Action.perform_eq_error_iff.mp hperform
    simp [log, Log.ended]
  | step cs w a rest e v hnext hperform ih => exact ih (count + 1)

/-- Every step of a course is one that it demands. -/
theorem length_log_le (course : Course) (w : World) (count : Nat) :
    (course.log w count).beats.length ≤ course.demand := by
  induction course generalizing w count with
  | done => exact Nat.le_refl _
  | fault f => exact Nat.zero_le _
  | step e v later ih => exact Nat.succ_le_succ (ih v (count + 1))

variable {w : World} {c : Context}

/-- A course that is neither cancelled nor out of budget takes its first step. -/
theorem under_step {stop? : Option Nat} {e : Event} {v : World} {later : Course}
    (h : (c.heed stop?).cancelled = false) (hopen : ¬ c.budget ≤ c.count) :
    (step e v later).under w c stop? =
      (later.under v { c with count := c.count + 1 } (stop?.map (· - 1))).after
        ⟨e, v, c.count + 1⟩ := by
  simp [under, h, hopen]

theorem under_some_zero (course : Course) :
    course.under w c (some 0) = .ended w c.count .cancelled :=
  under_of_cancelled course rfl

/-- A course that is cancelled after as many steps as it would have taken anyway has taken just
these. -/
theorem under_some (course : Course) {k : Nat} (h : k ≤ (course.under w c none).beats.length) :
    course.under w c (some k) = (course.under w c none).cut w c.count k .cancelled := by
  induction course generalizing w c k with
  | done =>
    obtain rfl := Nat.le_zero.mp h
    rw [under_some_zero, Log.cut_zero]
  | fault f =>
    obtain rfl := Nat.le_zero.mp h
    rw [under_some_zero, Log.cut_zero]
  | step e v later ih =>
    cases k with
    | zero => rw [under_some_zero, Log.cut_zero]
    | succ k =>
      cases hcancelled : (c.heed none).cancelled with
      | true =>
        rw [under_of_cancelled _ hcancelled] at h
        exact absurd h (Nat.not_succ_le_zero k)
      | false =>
        by_cases hspent : c.budget ≤ c.count
        · rw [under, hcancelled, if_neg Bool.false_ne_true, if_pos hspent] at h
          exact absurd h (Nat.not_succ_le_zero k)
        · -- the cancellation is not yet due at the first step
          have hheed : (c.heed (some (k + 1))).cancelled = false := hcancelled
          rw [under_step hcancelled hspent] at h
          rw [under_step hcancelled hspent, under_step hheed hspent, Log.cut_after]
          exact congrArg (Log.after · _) (ih (Nat.le_of_succ_le_succ h))

/-- A course that its budget does not cover takes the steps that the budget allows. -/
theorem under_of_demand (course : Course) (hc : c.cancelled = false)
    (h : c.budget - c.count < course.demand) :
    course.under w c none =
      (course.log w c.count).cut w c.count (c.budget - c.count)
        (.failed (.budgetOverrun c.budget)) := by
  have hheed : (c.heed none).cancelled = false := hc
  induction course generalizing w c with
  | done => exact absurd h (Nat.not_lt_zero _)
  | fault f =>
    have hleft : c.budget - c.count = 0 := Nat.lt_one_iff.mp h
    have hspent : c.budget ≤ c.count := Nat.sub_eq_zero_iff_le.mp hleft
    rw [under, hheed, if_neg Bool.false_ne_true, if_pos hspent, hleft, Log.cut_zero]
  | step e v later ih =>
    by_cases hspent : c.budget ≤ c.count
    · rw [under, hheed, if_neg Bool.false_ne_true, if_pos hspent, Nat.sub_eq_zero_of_le hspent,
        Log.cut_zero]
    · have hleft : c.budget - c.count = c.budget - (c.count + 1) + 1 := by omega
      have hlater : c.budget - (c.count + 1) < later.demand := by
        rw [demand] at h
        omega
      rw [under_step hheed hspent, log, hleft, Log.cut_after]
      exact congrArg (Log.after · _) (ih hc hlater hheed)

/-- A course that its budget covers is not restricted by it, also if the count is beyond the budget
and nothing is left to be done. -/
theorem under_of_demand_le (course : Course) (hc : c.cancelled = false)
    (h : course.demand ≤ c.budget - c.count) : course.under w c none = course.log w c.count := by
  cases course with
  | done => simp [under, log, Context.heed, hc]
  | fault f =>
    rw [demand] at h
    exact under_eq_log _ hc (by rw [demand]; omega)
  | step e v later =>
    rw [demand] at h
    exact under_eq_log _ hc (by rw [demand]; omega)

end Course

open Course Machine

/-- Once its next step ends a machine, nothing is due to it any more. -/
theorem next?_handled_of_finish {m : Machine} {o : Outcome} (h : m.step = m.finish o)
    (ts : List Touch) :
    next? (m.handled (.step :: ts)).world (m.handled (.step :: ts)).executor.pending = none := by
  have hover : (m.finish o).2.executor.outcome? = some o := rfl
  rw [handled_step, h, handled_of_outcome hover]
  split <;> exact next?_nil _

/-- As long as its budget lasts, an action is due to a machine after some steps just if the course
of its commands demands more than them. -/
theorem due_iff (cs : List Command) (w : World) {c : Context} (hc : c.cancelled = false) {n : Nat}
    (hn : n ≤ c.budget - c.count) :
    let start : Machine := { world := w, executor := .ofCommands cs, context := c }
    let m := start.handled (List.replicate n .step)
    (next? m.world m.executor.pending).isSome = true ↔ n < (courseOf cs w).demand := by
  intro start m
  induction cs, w using courseOf_induction generalizing c n with
  | done cs w hnext =>
    have hnone : next? m.world m.executor.pending = none := by
      cases n with
      | zero => exact hnext
      | succ n => exact next?_handled_of_finish (step_of_none rfl hc hnext) _
    simp [hnone, demand]
  | fault cs w a rest f hnext hperform =>
    cases n with
    | zero =>
      have hsome : next? m.world m.executor.pending = some (a, rest) := hnext
      simp [hsome, demand]
    | succ n =>
      have hopen : ¬ c.budget ≤ c.count := by omega
      have hnone : next? m.world m.executor.pending = none :=
        next?_handled_of_finish (step_of_fault rfl hc hnext hopen hperform) _
      simp [hnone, demand]
  | step cs w a rest e v hnext hperform ih =>
    cases n with
    | zero =>
      have hsome : next? m.world m.executor.pending = some (a, rest) := hnext
      simp [hsome, demand]
    | succ n =>
      have hopen : ¬ c.budget ≤ c.count := by omega
      have hleft : n ≤ c.budget - (c.count + 1) := by omega
      -- the first step leads to a machine of the same kind with one step less to go
      have hstep : start.step = (.applied e,
          { world := v, executor := .ofCommands (a.rest ++ rest)
            context := { c with count := c.count + 1 } }) :=
        step_of_performed rfl hc hnext hopen hperform
      have hm : m = start.step.2.handled (List.replicate n .step) := rfl
      rw [hm, hstep, demand, Nat.add_lt_add_iff_right]
      exact ih (c := { c with count := c.count + 1 }) hc hleft

/-- What cancellations and budgets leave of every run of some commands. A run that is cancelled
after some of its steps, all of them included, has taken just these. The steps that the budget
leaves are the first ones of the run that no budget restricts, which is what every sufficient
budget shows; if an action is due after them the budget ends the run, and otherwise it does not
matter. A run that is over stays as it is. -/
theorem run_cut_short (w : World) (cs : List Command) (c : Context) :
    let start : Machine := { world := w, executor := .ofCommands cs, context := c }
    (∀ k, k ≤ (start.watch none).beats.length →
        start.watch (some k) = (start.watch none).cut w c.count k .cancelled) ∧
      (c.cancelled = false →
        let free := (courseOf cs w).log w c.count
        let left := c.budget - c.count
        let stopped := start.handled (List.replicate left .step)
        let due := (next? stopped.world stopped.executor.pending).isSome = true
        (∀ big, c.count + boundOf cs ≤ big →
          ({ start with context := { c with budget := big } } : Machine).watch none = free) ∧
        (start.watch none).beats = free.beats.take left ∧
        ((start.watch none).outcome = .failed (.budgetOverrun c.budget) ↔ due) ∧
        (due → start.watch none = free.cut w c.count left (.failed (.budgetOverrun c.budget))) ∧
        (¬ due → start.watch none = free)) ∧
      ∀ before o, (start.handled before).step.1 = .finished o → ∀ later,
        let ended := (start.handled before).step.2
        let m := ended.handled later
        m.step = (.finished o, m) ∧ m.world = ended.world ∧
          m.context.budget = ended.context.budget ∧ m.context.count = ended.context.count := by
  intro start
  refine ⟨fun k hk => ?_, fun hc => ?_, fun before o ho later => ?_⟩
  · rw [watch_eq_under] at hk ⊢
    rw [watch_eq_under]
    exact under_some _ hk
  · intro free left stopped due
    have hdue : due ↔ left < (courseOf cs w).demand := due_iff cs w hc (Nat.le_refl _)
    have hcut : due →
        start.watch none = free.cut w c.count left (.failed (.budgetOverrun c.budget)) := by
      intro h
      rw [watch_eq_under]
      exact under_of_demand _ hc (hdue.mp h)
    have hfree : ¬ due → start.watch none = free := by
      intro h
      rw [watch_eq_under]
      exact under_of_demand_le _ hc (Nat.le_of_not_lt (mt hdue.mpr h))
    refine ⟨fun big hbig => ?_, ?_, ⟨fun houtcome => ?_, fun h => ?_⟩, hcut, hfree⟩
    · have hdemand := demand_courseOf_le cs w
      have henough : (courseOf cs w).demand ≤ big - c.count := by omega
      rw [watch_eq_under]
      exact under_of_demand_le _ hc henough
    · by_cases h : due
      · rw [hcut h, Log.cut]
      · have hlength : free.beats.length ≤ left :=
          Nat.le_trans (length_log_le _ _ _) (Nat.le_of_not_lt (mt hdue.mpr h))
        rw [hfree h, List.take_of_length_le hlength]
    · by_cases h : due
      · exact h
      · rw [hfree h] at houtcome
        exact absurd houtcome (outcome_log_courseOf_ne cs w c.count c.budget)
    · rw [hcut h, Log.cut]
  · intro ended m
    have hover : ended.executor.outcome? = some o := (step_of_finished (Prod.ext ho rfl)).2.2
    have hm : m = if .cancel ∈ later then ended.cancel else ended := handled_of_outcome hover later
    rw [hm]
    split
    · exact ⟨step_of_outcome hover, rfl, rfl, rfl⟩
    · exact ⟨step_of_outcome hover, rfl, rfl, rfl⟩

/-- A move of four cells, and then a loop that comes to nothing: cancelled in the middle of the
move and after it, with a budget that ends within the move and with one that is just enough for
it, and handled after its end. -/
theorem run_cut_short_within_move :
    let w := Level.phaseOne.world
    let cs : List Command := [.act (.move .forward 4), .loop 3 [.branch false [] []]]
    let start (budget : Nat) : Machine :=
      { world := w, executor := .ofCommands cs, context := { budget } }
    let free := (courseOf cs w).log w 0
    let ended := ((start 4).handled (List.replicate 4 .step)).step.2
    (4 ≤ ((start 9).watch none).beats.length ∧
        (start 9).watch (some 2) = ((start 9).watch none).cut w 0 2 .cancelled ∧
        (start 9).watch (some 4) = ((start 9).watch none).cut w 0 4 .cancelled) ∧
      ((start 9).watch none = free ∧
        (start 3).watch none = free.cut w 0 3 (.failed (.budgetOverrun 3)) ∧
        (start 4).watch none = free ∧ free.outcome = .completed) ∧
      ((start 4).handled (List.replicate 4 .step)).step.1 = .finished .completed ∧
        (ended.handled [.cancel, .step]).step.1 = .finished .completed := by
  intro w cs start free ended
  have hlength : 4 ≤ ((start 9).watch none).beats.length := by decide +kernel
  obtain ⟨hcancel, -, -⟩ := run_cut_short w cs { budget := 9 }
  obtain ⟨-, hshort, -⟩ := run_cut_short w cs { budget := 3 }
  obtain ⟨-, hjust, hover⟩ := run_cut_short w cs { budget := 4 }
  obtain ⟨hbig, -, -, hcut, -⟩ := hshort rfl
  obtain ⟨-, -, -, -, hfree⟩ := hjust rfl
  have hend : ((start 4).handled (List.replicate 4 .step)).step.1 = .finished .completed := by
    decide +kernel
  refine ⟨⟨hlength, hcancel 2 (Nat.le_trans (by decide) hlength), hcancel 4 hlength⟩,
    ⟨hbig 9 (by decide), hcut (by decide +kernel), hfree (by decide +kernel), by decide +kernel⟩,
    hend, ?_⟩
  exact congrArg Prod.fst (hover _ _ hend [.cancel, .step]).1

end RobotPuzzle
