import RobotPuzzle.Proofs.Bound
import RobotPuzzle.Proofs.Stepping

/-!
# Every run ends

A step takes commands off the queue until an action comes first. A repetition or a branch puts what
it stands for in its own place, and this may be more commands than there were before, with
repetitions and branches among them, or none at all. Still a step comes to an end, because what a
command stands for weighs less than the command. Neither does stepping go on for ever: every action
that is carried out leaves a shorter way to go, wherever the robot stands and whatever happens to
the world and the budget between two steps.

## Main definitions

* `Machine.pass` — one pass of a step, which takes the first command off the queue
* `Machine.Passes` — several passes that replace a repetition or a branch each
* `Setting`, `Executor.stepIn` — an executor that is stepped in one world and context or another
* `Executor.after`, `Executor.answers` — what comes of stepping it several times
* `Machine.RunsTo` — a machine that is stepped until an outcome is reached

## Main results

* `Machine.splice_of_pass` — what a pass that does not end its step has done
* `Machine.Passes.add_weightOf_le` — no step makes more passes than its queue weighs
* `Machine.exists_passes` — the passes of a step come to its answer
* `Executor.exists_answers` — an executor answers with events, and from then on with its outcome
* `stepping_ends` — every step, every run and every way to step an executor comes to an end
-/

namespace RobotPuzzle

/-! ### The passes of a step -/

namespace Machine

variable {m m' m'' : Machine} {k : Nat}

/-- The machine with other commands in its queue. -/
def requeue (m : Machine) (cs : List Command) : Machine :=
  { m with executor := { m.executor with pending := cs } }

/-- One pass of a step. It comes to the answer of the step unless a repetition or a branch is first
in the queue; then this makes way for the commands that it stands for. -/
def pass (m : Machine) : Machine ⊕ Step × Machine :=
  if m.context.cancelled then .inr (m.finish .cancelled)
  else
    match m.executor.pending with
    | [] => .inr (m.finish .completed)
    | .loop n body :: cs => .inl (m.requeue (rounds n body ++ cs))
    | .branch negated thenDo elseDo :: cs =>
      .inl (m.requeue ((if m.world.onFire != negated then thenDo else elseDo) ++ cs))
    | .act action :: cs =>
      if m.context.budget ≤ m.context.count then
        .inr (m.finish (.failed (.budgetOverrun m.context.budget)))
      else
        match action.perform m.world with
        | .error fault => .inr (m.finish (.failed fault))
        | .ok (event, world) =>
          .inr (.applied event,
            { world
              executor := { pending := action.rest ++ cs }
              context := { m.context with count := m.context.count + 1 } })

/-- A number of passes, none of which has ended the step. -/
inductive Passes : Nat → Machine → Machine → Prop
  | nil (m : Machine) : Passes 0 m m
  | cons {k : Nat} {m m' m'' : Machine} : m.pass = .inl m' → Passes k m' m'' → Passes (k + 1) m m''

/-- A pass that does not end its step has put commands into the queue that come to the same action
and weigh less than what was there. -/
theorem splice_of_pass (h : m.pass = .inl m') :
    ∃ cs, m' = m.requeue cs ∧ next? m.world cs = next? m.world m.executor.pending ∧
      weightOf cs < weightOf m.executor.pending := by
  unfold pass at h
  split at h
  · cases h
  · split at h
    · cases h
    -- a loop weighs more than all its rounds, and a branch more than either block
    · next n body cs hpending =>
      obtain rfl := Sum.inl.inj h
      refine ⟨_, rfl, ?_, ?_⟩
      · rw [hpending, next?_loop, rounds_eq]
      · rw [hpending, rounds_eq, weightOf_append, weightOf_replicate, weightOf, Command.weight]
        omega
    · next negated thenDo elseDo cs hpending =>
      obtain rfl := Sum.inl.inj h
      refine ⟨_, rfl, ?_, ?_⟩
      · rw [hpending, next?_branch]
      · rw [hpending, weightOf_append, weightOf, Command.weight]
        split <;> omega
    · split at h
      · cases h
      · split at h <;> cases h

/-- What a step answers depends on the action that its queue comes to, and on nothing else of the
queue. -/
theorem step_requeue (hlive : m.executor.outcome? = none) {cs : List Command}
    (hnext : next? m.world cs = next? m.world m.executor.pending) :
    (m.requeue cs).step = m.step := by
  unfold step requeue
  simp only [hlive, hnext]
  rfl

/-- The last pass of a step comes to its answer. -/
theorem step_of_pass {r : Step × Machine} (hlive : m.executor.outcome? = none)
    (h : m.pass = .inr r) : m.step = r := by
  unfold pass at h
  split at h
  · next htold =>
    obtain rfl := Sum.inr.inj h
    exact step_of_cancelled hlive htold
  · next htold =>
    have huntold : m.context.cancelled = false := Bool.eq_false_iff.mpr htold
    split at h
    · next hpending =>
      obtain rfl := Sum.inr.inj h
      exact step_of_none hlive huntold (by rw [hpending, next?_nil])
    · cases h
    · cases h
    · next a cs hpending =>
      have hnext : next? m.world m.executor.pending = some (a, cs) := by rw [hpending, next?_act]
      split at h
      · next hspent =>
        obtain rfl := Sum.inr.inj h
        exact step_of_spent hlive huntold hnext hspent
      · next hopen =>
        split at h
        · next hperform =>
          obtain rfl := Sum.inr.inj h
          exact step_of_fault hlive huntold hnext hopen hperform
        · next hperform =>
          obtain rfl := Sum.inr.inj h
          exact step_of_performed hlive huntold hnext hopen hperform

/-- Every pass makes the queue lighter, so no step makes more of them than its queue weighs. -/
theorem Passes.add_weightOf_le (h : Passes k m m') :
    k + weightOf m'.executor.pending ≤ weightOf m.executor.pending := by
  induction h with
  | nil => exact Nat.le_of_eq (Nat.zero_add _)
  | cons hpass _ ih =>
    obtain ⟨cs, rfl, -, hlighter⟩ := splice_of_pass hpass
    change _ ≤ weightOf cs at ih
    omega

/-- After some passes a step comes to its answer. -/
theorem exists_passes (hlive : m.executor.outcome? = none) :
    ∃ k m', Passes k m m' ∧ m'.pass = .inr m.step := by
  -- on the weight of the queue, which every pass makes less
  induction hn : weightOf m.executor.pending using Nat.strongRecOn generalizing m with
  | _ n ih =>
    subst hn
    cases hpass : m.pass with
    | inr r => exact ⟨0, m, .nil m, by rw [hpass, step_of_pass hlive hpass]⟩
    | inl m' =>
      obtain ⟨cs, rfl, hnext, hlighter⟩ := splice_of_pass hpass
      have hlater : (m.requeue cs).executor.outcome? = none := hlive
      obtain ⟨k, m'', hpasses, hanswer⟩ := ih _ hlighter hlater rfl
      rw [step_requeue hlive hnext] at hanswer
      exact ⟨k + 1, m'', .cons hpass hpasses, hanswer⟩

/-! ### The way that is left -/

/-- Every action that is carried out leaves a shorter way to go. -/
theorem boundOf_of_applied {e : Event} (h : m.step = (.applied e, m')) :
    boundOf m'.executor.pending < boundOf m.executor.pending := by
  cases advance_of_step h with
  | @performed a rest _ _ live untold due left effect =>
    have hbound := boundOf_of_next? due
    have hrest := a.boundOf_rest
    change boundOf (a.rest ++ rest) < _
    rw [boundOf_append]
    omega

/-- The end of a run leaves nothing to go, and a run that is over stays as it is. -/
theorem boundOf_of_finished {o : Outcome} (h : m.step = (.finished o, m')) :
    boundOf m'.executor.pending ≤ boundOf m.executor.pending := by
  cases advance_of_step h with
  | ended => exact Nat.le_refl _
  | cancelled | completed | spent | faulted => exact Nat.zero_le _

/-- The machine is stepped again and again until an outcome is reached, and this is what comes of
it. -/
inductive RunsTo : Machine → Run → Prop
  | finished {m m' : Machine} {o : Outcome} :
    m.step = (.finished o, m') → RunsTo m { events := [], outcome := o, machine := m' }
  | applied {m m' : Machine} {e : Event} {r : Run} :
    m.step = (.applied e, m') → RunsTo m' r → RunsTo m { r with events := e :: r.events }

/-- Every machine can be run to an end, which is no further than the longest way through its
commands. -/
theorem runsTo_run (m : Machine) :
    m.RunsTo m.run ∧ m.run.events.length ≤ boundOf m.executor.pending := by
  -- on the way that is left, which every event makes shorter
  induction hn : boundOf m.executor.pending using Nat.strongRecOn generalizing m with
  | _ n ih =>
    subst hn
    rcases hstep : m.step with ⟨answer, m'⟩
    cases answer with
    | finished o =>
      rw [run_of_finished hstep]
      exact ⟨.finished hstep, Nat.zero_le _⟩
    | applied e =>
      have hshorter := boundOf_of_applied hstep
      obtain ⟨hruns, hlength⟩ := ih _ hshorter m' rfl
      rw [run_of_applied hstep]
      exact ⟨.applied hstep hruns, Nat.lt_of_le_of_lt hlength hshorter⟩

end Machine

/-! ### Stepping in changing worlds -/

/-- The world and the context that a step finds. -/
structure Setting where
  world : World
  context : Context

/-- Whether a step has carried out an action. -/
def Step.isApplied : Step → Bool
  | .applied _ => true
  | .finished _ => false

namespace Executor

variable {o : Outcome} {s : Setting} {settings : List Setting}

/-- Steps an executor in a setting. -/
def stepIn (e : Executor) (s : Setting) : Step × Executor :=
  let r := (Machine.mk s.world e s.context).step
  (r.1, r.2.executor)

/-- The executor after it was stepped in one setting after the other. -/
def after (e : Executor) (settings : List Setting) : Executor :=
  settings.foldl (fun e s => (e.stepIn s).2) e

/-- The answers of an executor that is stepped in one setting after the other. -/
def answers (e : Executor) : List Setting → List Step
  | [] => []
  | s :: settings => (e.stepIn s).1 :: (e.stepIn s).2.answers settings

theorem length_answers (e : Executor) (settings : List Setting) :
    (e.answers settings).length = settings.length := by
  induction settings generalizing e with
  | nil => rfl
  | cons s settings ih => rw [answers, List.length_cons, List.length_cons, ih]

theorem after_cons (e : Executor) (s : Setting) (settings : List Setting) :
    e.after (s :: settings) = (e.stepIn s).2.after settings := rfl

/-- In every setting an executor carries out an action and has a shorter way to go, or it reaches
an outcome. -/
theorem stepIn_cases (e : Executor) (s : Setting) :
    (∃ event, (e.stepIn s).1 = .applied event ∧
        boundOf (e.stepIn s).2.pending < boundOf e.pending) ∨
      ∃ o, (e.stepIn s).1 = .finished o ∧ (e.stepIn s).2.outcome? = some o ∧
        boundOf (e.stepIn s).2.pending ≤ boundOf e.pending := by
  unfold stepIn
  rcases hstep : (Machine.mk s.world e s.context).step with ⟨answer, m'⟩
  cases answer with
  | applied event => exact .inl ⟨event, rfl, Machine.boundOf_of_applied hstep⟩
  | finished o =>
    exact .inr ⟨o, rfl, (Machine.step_of_finished hstep).2.2, Machine.boundOf_of_finished hstep⟩

/-- An executor that has reached an outcome keeps answering with it. -/
theorem answers_of_outcome {e : Executor} (h : e.outcome? = some o) (settings : List Setting) :
    e.answers settings = List.replicate settings.length (.finished o) := by
  induction settings with
  | nil => rfl
  | cons s settings ih =>
    have hstep : (Machine.mk s.world e s.context).step = (.finished o, ⟨s.world, e, s.context⟩) :=
      Machine.step_of_outcome h
    rw [answers, stepIn, hstep, ih]
    rfl

/-- Whatever the settings are, an executor answers with some events, which are not more than the
longest way through its commands is long, and from then on with the same outcome. -/
theorem exists_answers (e : Executor) (settings : List Setting) :
    ∃ (events : List Event) (o : Outcome) (n : Nat),
      e.answers settings = events.map .applied ++ List.replicate n (.finished o) ∧
        events.length ≤ boundOf e.pending := by
  -- on the settings: each makes the way shorter, or settles all answers from there on
  induction settings generalizing e with
  | nil => exact ⟨[], .completed, 0, rfl, Nat.zero_le _⟩
  | cons s settings ih =>
    obtain ⟨event, hanswer, hshorter⟩ | ⟨o, hanswer, houtcome, -⟩ := e.stepIn_cases s
    · obtain ⟨events, o, n, hlater, hlength⟩ := ih (e.stepIn s).2
      refine ⟨event :: events, o, n, ?_, Nat.lt_of_le_of_lt hlength hshorter⟩
      rw [answers, hanswer, hlater]
      rfl
    · refine ⟨[], o, settings.length + 1, ?_, Nat.zero_le _⟩
      rw [answers, hanswer, answers_of_outcome houtcome]
      rfl

/-- The actions that were carried out and the way that is left are no more than the whole way. -/
theorem countP_isApplied_add_le (e : Executor) (settings : List Setting) :
    (e.answers settings).countP Step.isApplied + boundOf (e.after settings).pending ≤
      boundOf e.pending := by
  induction settings generalizing e with
  | nil => exact Nat.le_of_eq (Nat.zero_add _)
  | cons s settings ih =>
    have hlater := ih (e.stepIn s).2
    rw [answers, List.countP_cons, after_cons]
    obtain ⟨event, hanswer, hshorter⟩ | ⟨o, hanswer, -, hle⟩ := e.stepIn_cases s
    · rw [hanswer, Step.isApplied, if_pos rfl]
      omega
    · rw [hanswer, Step.isApplied, if_neg Bool.false_ne_true]
      omega

end Executor

/-- Every way to step an executor comes to an end. The executor may have been stepped before, in
whatever worlds and contexts. A step that it takes next makes only so many passes that replace a
repetition or a branch, and after them it comes to its answer; an executor that has reached an
outcome answers with it at once. If the executor is stepped on, in whatever worlds and contexts, it
answers with events and then with its outcome for ever, and all its events, with those before, are
not more than the longest way through its commands is long. So a run comes to an end with no more
events than that. -/
theorem stepping_ends (cs : List Command) (before : List Setting) :
    let e := (Executor.ofCommands cs).after before
    let applied := ((Executor.ofCommands cs).answers before).countP Step.isApplied
    (∀ w c, let m : Machine := { world := w, executor := e, context := c }
      (∀ k m', m.Passes k m' → k ≤ weightOf e.pending) ∧
        (e.outcome? = none → ∃ k m', m.Passes k m' ∧ m'.pass = .inr m.step) ∧
        ∀ o, e.outcome? = some o → m.step = (.finished o, m)) ∧
      (∀ settings, ∃ (events : List Event) (o : Outcome) (n : Nat),
        e.answers settings = events.map .applied ++ List.replicate n (.finished o) ∧
          applied + events.length ≤ boundOf cs ∧ (boundOf cs < applied + settings.length → 0 < n)) ∧
      ∀ w c, let m : Machine := { world := w, executor := e, context := c }
        m.RunsTo m.run ∧ applied + m.run.events.length ≤ boundOf cs := by
  intro e applied
  have hway : applied + boundOf e.pending ≤ boundOf cs :=
    (Executor.ofCommands cs).countP_isApplied_add_le before
  refine ⟨fun w c => ⟨fun k m' hpasses => ?_, fun hlive => ?_, fun o hover => ?_⟩,
    fun settings => ?_, fun w c => ?_⟩
  · exact Nat.le_of_add_right_le hpasses.add_weightOf_le
  · exact Machine.exists_passes (m := ⟨w, e, c⟩) hlive
  · exact Machine.step_of_outcome (m := ⟨w, e, c⟩) hover
  · obtain ⟨events, o, n, hanswers, hlength⟩ := e.exists_answers settings
    have hall := congrArg List.length hanswers
    rw [e.length_answers, List.length_append, List.length_map, List.length_replicate] at hall
    exact ⟨events, o, n, hanswers, by omega, fun hmany => by omega⟩
  · obtain ⟨hruns, hlength⟩ := Machine.runsTo_run ⟨w, e, c⟩
    exact ⟨hruns, Nat.le_trans (Nat.add_le_add_left hlength applied) hway⟩

/-- Loops in a branch in a loop, two steps into their run: a move of no cells still takes its step,
so that there are eight steps at most. -/
theorem stepping_ends_nested_loops :
    let cs : List Command :=
      [.loop 3 [.loop 0 [.act .turnLeft], .branch false [] [.loop 2 [.act (.move .forward 0)]]],
        .act (.move .backward 2)]
    let s : Setting := ⟨Level.phaseOne.world, { budget := 9 }⟩
    let e := (Executor.ofCommands cs).after [s, s]
    let m : Machine := { world := s.world, executor := e, context := s.context }
    (boundOf cs = 8 ∧ e.outcome? = none) ∧ (∃ k m', m.Passes k m' ∧ m'.pass = .inr m.step) ∧
      m.RunsTo m.run ∧ 2 + m.run.events.length ≤ 8 := by
  intro cs s e m
  have hbound : boundOf cs = 8 := by decide +kernel
  have hlive : e.outcome? = none := by decide +kernel
  have happlied : ((Executor.ofCommands cs).answers [s, s]).countP Step.isApplied = 2 := by
    decide +kernel
  obtain ⟨hpasses, -, hrun⟩ := stepping_ends cs [s, s]
  obtain ⟨hruns, hlength⟩ := hrun s.world s.context
  rw [happlied, hbound] at hlength
  exact ⟨⟨hbound, hlive⟩, (hpasses s.world s.context).2.1 hlive, hruns, hlength⟩

end RobotPuzzle
