import RobotPuzzle.Run.Machine

/-!
# What a step can come to

A step of an action has one of ten effects on a world, or is the fault of a robot off the board. A
step of a machine is such an effect or the end of the run. Here both are said once, as relations
with a constructor for each way to go, so that whatever holds of a run can be shown way by way.
Whoever holds a machine can step it, and whoever holds its cancellation can use it between two
steps; a run that is over stays as it is under both.

## Main definitions

* `Effect` — the event and the world that one step of an action leads to
* `Machine.Advance` — the answer and the machine that one step of a machine leads to
* `Machine.Touch`, `Machine.touch`, `Machine.handled` — stepping and cancelling, in any order

## Main results

* `Action.perform_eq_ok_iff`, `Action.perform_eq_error_iff` — performing an action has its effect
* `Machine.advance_step` — a step of a machine is one of the ways to go
* `Machine.handled_induction` — what steps and cancellations keep holds all along
* `Machine.handled_of_outcome` — a run that is over stays as it is
-/

namespace RobotPuzzle

/-- What one step of an action does in a world: the event it reports and the world it leaves. -/
inductive Effect (w : World) : Action → Event → World → Prop
  | moved {heading : Heading} {cells : Nat} (inside : w.grid.Contains w.robot.cell)
      (free : w.grid.Passable (w.robot.ahead heading)) :
      Effect w (.move heading cells)
        (.moved w.robot.cell (w.robot.ahead heading) (w.grid.onFire (w.robot.ahead heading)))
        { w with robot := { w.robot with cell := w.robot.ahead heading } }
  | bumped {heading : Heading} {cells : Nat} (inside : w.grid.Contains w.robot.cell)
      (blocked : ¬ w.grid.Passable (w.robot.ahead heading)) :
      Effect w (.move heading cells) (.bumped w.robot.cell (w.robot.ahead heading)) w
  | turnedLeft :
      Effect w .turnLeft (.turned w.robot.facing.left)
        { w with robot := { w.robot with facing := w.robot.facing.left } }
  | turnedRight :
      Effect w .turnRight (.turned w.robot.facing.right)
        { w with robot := { w.robot with facing := w.robot.facing.right } }
  | collected (here : w.AtCrystal) (there : w.crystal.collected = false) :
      Effect w .collect (.collected w.robot.cell)
        { w with crystal := { w.crystal with collected := true } }
  | collectMissed (missed : ¬ (w.AtCrystal ∧ w.crystal.collected = false)) :
      Effect w .collect (.collectMissed w.robot.cell) w
  | extinguished {g : Grid} (fire : w.grid.deactivate? w.robot.cell (some .fire) = some g) :
      Effect w .extinguish (.extinguished w.robot.cell) { w with grid := g }
  | extinguishMissed (missed : w.grid.deactivate? w.robot.cell (some .fire) = none) :
      Effect w .extinguish (.extinguishMissed w.robot.cell) w
  | covered {g : Grid} (hazard : w.grid.deactivate? w.robot.cell none = some g) :
      Effect w .cover (.covered w.robot.cell) { w with grid := g }
  | coverMissed (missed : w.grid.deactivate? w.robot.cell none = none) :
      Effect w .cover (.coverMissed w.robot.cell) w

namespace Action

variable {w w' : World} {a : Action} {e : Event} {f : Fault}

theorem effect_of_perform (h : a.perform w = .ok (e, w')) : Effect w a e w' := by
  cases a with
  | move heading cells =>
    simp only [perform, World.stride] at h
    split at h
    · next inside =>
      split at h
      · next free =>
        cases h
        exact .moved inside free
      · next blocked =>
        cases h
        exact .bumped inside blocked
    · cases h
  | turnLeft =>
    cases h
    exact .turnedLeft
  | turnRight =>
    cases h
    exact .turnedRight
  | collect =>
    simp only [perform] at h
    split at h
    · next hcrystal =>
      cases h
      exact .collected hcrystal.1 hcrystal.2
    · next missed =>
      cases h
      exact .collectMissed missed
  | extinguish =>
    simp only [perform] at h
    split at h
    · next fire =>
      cases h
      exact .extinguished fire
    · next missed =>
      cases h
      exact .extinguishMissed missed
  | cover =>
    simp only [perform] at h
    split at h
    · next hazard =>
      cases h
      exact .covered hazard
    · next missed =>
      cases h
      exact .coverMissed missed

/-- An action that can be performed has its effect. -/
theorem perform_eq_ok_iff : a.perform w = .ok (e, w') ↔ Effect w a e w' := by
  refine ⟨effect_of_perform, fun h => ?_⟩
  cases h with
  | moved inside free => simp [perform, World.stride, inside, free]
  | bumped inside blocked => simp [perform, World.stride, inside, blocked]
  | turnedLeft => rfl
  | turnedRight => rfl
  | collected here there => simp [perform, here, there]
  | collectMissed missed => rw [perform, if_neg missed]
  | extinguished fire => simp [perform, fire]
  | extinguishMissed missed => simp [perform, missed]
  | covered hazard => simp [perform, hazard]
  | coverMissed missed => simp [perform, missed]

/-- Only the moves of a robot off the board cannot be performed. -/
theorem perform_eq_error_iff :
    a.perform w = .error f ↔
      (∃ heading cells, a = .move heading cells) ∧ ¬ w.grid.Contains w.robot.cell ∧
        f = .offGrid w.robot.cell := by
  constructor
  · intro h
    cases a with
    | move heading cells =>
      simp only [perform, World.stride] at h
      split at h
      · split at h <;> cases h
      · next outside =>
        cases h
        exact ⟨⟨heading, cells, rfl⟩, outside, rfl⟩
    | turnLeft => cases h
    | turnRight => cases h
    -- these miss where there is nothing to deal with, which is an event of its own
    | collect | extinguish | cover =>
      simp only [perform] at h
      split at h <;> cases h
  · rintro ⟨⟨heading, cells, rfl⟩, outside, rfl⟩
    rw [perform, World.stride, if_neg outside]

end Action

namespace Machine

/-- What a step of a machine can come to. -/
inductive Advance (m : Machine) : Step → Machine → Prop
  | ended {o : Outcome} (reached : m.executor.outcome? = some o) : Advance m (.finished o) m
  | cancelled (live : m.executor.outcome? = none) (told : m.context.cancelled = true) :
      Advance m (.finished .cancelled) (m.finish .cancelled).2
  | completed (live : m.executor.outcome? = none) (untold : m.context.cancelled = false)
      (idle : next? m.world m.executor.pending = none) :
      Advance m (.finished .completed) (m.finish .completed).2
  | spent {a : Action} {rest : List Command} (live : m.executor.outcome? = none)
      (untold : m.context.cancelled = false)
      (due : next? m.world m.executor.pending = some (a, rest))
      (used : m.context.budget ≤ m.context.count) :
      Advance m (.finished (.failed (.budgetOverrun m.context.budget)))
        (m.finish (.failed (.budgetOverrun m.context.budget))).2
  | faulted {a : Action} {rest : List Command} {f : Fault} (live : m.executor.outcome? = none)
      (untold : m.context.cancelled = false)
      (due : next? m.world m.executor.pending = some (a, rest))
      (left : m.context.count < m.context.budget) (fault : a.perform m.world = .error f) :
      Advance m (.finished (.failed f)) (m.finish (.failed f)).2
  | performed {a : Action} {rest : List Command} {e : Event} {w : World}
      (live : m.executor.outcome? = none) (untold : m.context.cancelled = false)
      (due : next? m.world m.executor.pending = some (a, rest))
      (left : m.context.count < m.context.budget) (effect : Effect m.world a e w) :
      Advance m (.applied e)
        { world := w
          executor := { pending := a.rest ++ rest }
          context := { m.context with count := m.context.count + 1 } }

/-- A run that is over stays as it is. -/
theorem step_of_outcome {m : Machine} {o : Outcome} (h : m.executor.outcome? = some o) :
    m.step = (.finished o, m) := by
  simp [step, h]

/-- A step goes one of the ways there are. -/
theorem advance_step (m : Machine) : m.Advance m.step.1 m.step.2 := by
  -- in the order in which a step asks: outcome, cancellation, queue, budget, and then the board
  cases hover : m.executor.outcome? with
  | some o =>
    rw [step_of_outcome hover]
    exact .ended hover
  | none =>
    cases htold : m.context.cancelled with
    | true =>
      rw [step_of_cancelled hover htold]
      exact .cancelled hover htold
    | false =>
      cases hnext : next? m.world m.executor.pending with
      | none =>
        rw [step_of_none hover htold hnext]
        exact .completed hover htold hnext
      | some next =>
        obtain ⟨a, rest⟩ := next
        by_cases hused : m.context.budget ≤ m.context.count
        · rw [step_of_spent hover htold hnext hused]
          exact .spent hover htold hnext hused
        · have hleft : m.context.count < m.context.budget := Nat.lt_of_not_le hused
          cases hperform : a.perform m.world with
          | error f =>
            rw [step_of_fault hover htold hnext hused hperform]
            exact .faulted hover htold hnext hleft hperform
          | ok r =>
            rw [step_of_performed hover htold hnext hused hperform]
            exact .performed hover htold hnext hleft (Action.effect_of_perform hperform)

theorem advance_of_step {m m' : Machine} {s : Step} (h : m.step = (s, m')) : m.Advance s m' := by
  have hadvance := m.advance_step
  rwa [h] at hadvance

/-- A step that ends a run leaves the world and the context alone. -/
theorem step_of_finished {m m' : Machine} {o : Outcome} (h : m.step = (.finished o, m')) :
    m'.world = m.world ∧ m'.context = m.context ∧ m'.executor.outcome? = some o := by
  cases advance_of_step h with
  | ended reached => exact ⟨rfl, rfl, reached⟩
  | cancelled | completed | spent | faulted => exact ⟨rfl, rfl, rfl⟩

/-! ### Handling a machine -/

/-- Cancels a run. -/
def cancel (m : Machine) : Machine := { m with context := { m.context with cancelled := true } }

/-- What can be done with a machine. -/
inductive Touch | step | cancel
  deriving DecidableEq, Repr

/-- The machine after it was stepped or cancelled. -/
def touch (m : Machine) : Touch → Machine
  | .step => m.step.2
  | .cancel => m.cancel

/-- The machine after several steps and cancellations. -/
def handled (m : Machine) (ts : List Touch) : Machine := ts.foldl touch m

theorem handled_step (m : Machine) (ts : List Touch) :
    m.handled (.step :: ts) = m.step.2.handled ts := rfl

theorem handled_cancel (m : Machine) (ts : List Touch) :
    m.handled (.cancel :: ts) = m.cancel.handled ts := rfl

/-- What holds at first and is kept by steps and cancellations holds all along. -/
theorem handled_induction {motive : Machine → Prop} {m : Machine} (first : motive m)
    (step : ∀ m, motive m → motive m.step.2) (cancel : ∀ m, motive m → motive m.cancel)
    (ts : List Touch) : motive (m.handled ts) := by
  induction ts generalizing m with
  | nil => exact first
  | cons t ts ih =>
    cases t with
    | step => exact ih (step m first)
    | cancel => exact ih (cancel m first)

/-- Once a run is over, steps do nothing to the machine and cancellations are only noted. -/
theorem handled_of_outcome {m : Machine} {o : Outcome} (h : m.executor.outcome? = some o)
    (ts : List Touch) : m.handled ts = if .cancel ∈ ts then m.cancel else m := by
  induction ts generalizing m with
  | nil => rfl
  | cons t ts ih =>
    cases t with
    | step =>
      rw [handled_step, step_of_outcome h, ih h]
      simp
    | cancel =>
      -- a second cancellation changes nothing more
      have hcancel : m.cancel.handled ts = m.cancel := (ih (m := m.cancel) h).trans (ite_self _)
      rw [handled_cancel, hcancel]
      simp

end Machine

end RobotPuzzle
