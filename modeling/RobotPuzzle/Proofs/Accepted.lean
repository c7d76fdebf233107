import Mathlib.Data.List.Basic
import RobotPuzzle.Proofs.Bound
import RobotPuzzle.Proofs.Metering

/-!
# Accepted programs never fault

The meter of the compiler, the declared cost of commands and the steps a machine really takes are
three accounts of the same thing. Below the limit of the counter they agree well enough for every
accepted program to complete within its budget, on every level.

## Main results

* `boundOf_eq_workOf` — the longest way through compiled commands is their work
* `boundOf_le_of_parse` — a budget below the limit pays for every accepted program
* `accepted_run_completes` — an accepted program completes on every level
-/

namespace RobotPuzzle

theorem Action.strides_eq_work {a : Action} (h : a.Legal) : a.strides = a.work := by
  cases a with
  | move heading cells => exact Nat.max_eq_left h.1
  | _ => rfl

mutual

theorem Command.Canonical.bound_eq_work (c : Command) (h : c.Canonical) : c.bound = c.work := by
  cases c with
  | act a => exact Action.strides_eq_work h
  | loop count body =>
    rw [Command.bound, Command.work, boundOf_eq_workOf body h.2.2]
  | branch negated thenDo elseDo =>
    rw [Command.bound, Command.work, boundOf_eq_workOf thenDo h.2.1,
      boundOf_eq_workOf elseDo h.2.2]

/-- A move of compiled commands goes on for at least one cell, so that no way through them is
longer than their work. -/
theorem boundOf_eq_workOf (cs : List Command) (h : CanonicalAll cs) : boundOf cs = workOf cs := by
  cases cs with
  | nil => rfl
  | cons c cs =>
    rw [boundOf, workOf, Command.Canonical.bound_eq_work c h.1, boundOf_eq_workOf cs h.2]

end

/-- A cost below the limit of the counter is the whole work. -/
theorem workOf_eq_costOf {cs : List Command} (h : costOf cs < counterLimit) :
    workOf cs = costOf cs := by
  rw [costOf_eq] at h ⊢
  unfold saturate at *
  omega

theorem boundOf_le_of_parse {source : String} {budget : Nat} {cs : List Command}
    (hbudget : budget < counterLimit) (h : parse source budget = .ok cs) :
    boundOf cs = costOf cs ∧ costOf cs ≤ budget := by
  obtain ⟨ss, -, hcompile⟩ := parse_eq_ok_iff.mp h
  obtain ⟨hcanonical, hcost⟩ := costOf_le_of_compile hcompile
  refine ⟨?_, hcost⟩
  rw [boundOf_eq_workOf cs hcanonical, workOf_eq_costOf (Nat.lt_of_le_of_lt hcost hbudget)]

/-- A run of some commands from the beginning of a level. -/
def Level.machine (l : Level) (commands : List Command) : Machine :=
  { world := l.world, executor := .ofCommands commands, context := { budget := l.budget } }

/-- The machine of an accepted program can pay for whatever it may come to. -/
theorem Level.funded_machine {l : Level} {source : String} {commands : List Command}
    (hbudget : l.budget < counterLimit) (h : parse source l.budget = .ok commands) :
    (l.machine commands).Funded := by
  obtain ⟨hbound, hcost⟩ := boundOf_le_of_parse hbudget h
  refine ⟨rfl, l.standing_world, ?_⟩
  simp only [Level.machine, Executor.ofCommands]
  omega

/-- An accepted program completes on every level whose budget the counter can tell from its limit,
after no more steps than its declared cost, which is within the budget. -/
theorem accepted_run_completes {c : Config} {l : Level} {source : String}
    {commands : List Command} (hlevel : Level.ofConfig c = .ok l)
    (hbudget : c.budget < counterLimit) (hparse : parse source c.budget = .ok commands) :
    (l.machine commands).run.outcome = .completed ∧
      (l.machine commands).run.events.length ≤ costOf commands ∧ costOf commands ≤ c.budget := by
  obtain ⟨-, rfl⟩ := Level.ofConfig_eq_ok_iff.mp hlevel
  -- what the meter charged, what the commands declare and what a run may take are the same here
  have hfunded := Level.funded_machine hbudget hparse
  obtain ⟨hbound, hcost⟩ := boundOf_le_of_parse hbudget hparse
  obtain ⟨houtcome, hlength⟩ := hfunded.run rfl
  exact ⟨houtcome, Nat.le_trans hlength (Nat.le_of_eq hbound), hcost⟩

/-- The program of a loop, a move and a branch that costs just what the first level allows. -/
def corridorProgram : List Command :=
  [.loop 2 [.act (.move .forward 2)], .act (.move .forward 1),
    .branch true [.act .turnLeft] [.act .extinguish], .act (.move .forward 4)]

/-- The program for the corridor is accepted on the first level and completes there. -/
theorem accepted_run_completes_corridor :
    Level.ofConfig Level.phaseOneConfig = .ok Level.phaseOne ∧
      Level.phaseOneConfig.budget < counterLimit ∧
      parse "repeat 2 { forward 2 } forward 1 if !onFire { left } else { extinguish } forward 4"
        Level.phaseOneConfig.budget = .ok corridorProgram ∧
      (Level.phaseOne.machine corridorProgram).run.outcome = .completed ∧
      (Level.phaseOne.machine corridorProgram).run.events.length ≤ costOf corridorProgram ∧
      costOf corridorProgram ≤ Level.phaseOneConfig.budget := by
  have hlevel : Level.ofConfig Level.phaseOneConfig = .ok Level.phaseOne :=
    Level.ofConfig_eq_ok_iff.mpr ⟨Level.phaseOne.sound, rfl⟩
  have hbudget : Level.phaseOneConfig.budget < counterLimit := by decide
  have hparse : parse
      "repeat 2 { forward 2 } forward 1 if !onFire { left } else { extinguish } forward 4"
      Level.phaseOneConfig.budget = .ok corridorProgram := by decide +kernel
  exact ⟨hlevel, hbudget, hparse, accepted_run_completes hlevel hbudget hparse⟩

end RobotPuzzle
