import RobotPuzzle.Proofs.Standing

/-!
# Bounding runs

The longest way through some commands bounds the steps of every run of them, wherever the walls
and hazards are. A machine that can pay for it and whose robot stands in a free cell therefore
never meets a fault: it goes on until it is cancelled or nothing is left.

## Main definitions

* `Command.bound`, `boundOf` — the length of the longest way through commands
* `Machine.Funded` — a machine that can pay for whatever its commands may come to

## Main results

* `boundOf_of_next?` — taking out the first action pays for its steps
* `Machine.Funded.step` — a funded machine steps to a funded machine or ends without a fault
* `Machine.Funded.run` — an uncancelled funded machine completes within the bound
-/

namespace RobotPuzzle

mutual

/-- The number of steps of the longest way through a command. -/
def Command.bound : Command → Nat
  | .act a => a.strides
  | .loop count body => count * boundOf body
  | .branch _ thenDo elseDo => max (boundOf thenDo) (boundOf elseDo)

/-- The number of steps of the longest way through some commands. -/
def boundOf : List Command → Nat
  | [] => 0
  | c :: cs => c.bound + boundOf cs

end

theorem boundOf_append (cs ds : List Command) : boundOf (cs ++ ds) = boundOf cs + boundOf ds := by
  induction cs with
  | nil => simp [boundOf]
  | cons c cs ih => simp [boundOf, ih, Nat.add_assoc]

theorem boundOf_rounds (n : Nat) (body : List Command) :
    boundOf (rounds n body) = n * boundOf body := by
  rw [rounds_eq]
  induction n with
  | zero => simp [boundOf]
  | succ n ih =>
    rw [List.replicate_succ, List.flatten_cons, boundOf_append, ih, Nat.succ_mul, Nat.add_comm]

/-- The first step of an action and what is left of it make up the action. -/
theorem Action.boundOf_rest (a : Action) : boundOf a.rest + 1 = a.strides := by
  cases a with
  | move heading cells =>
    match cells with
    | 0 => rfl
    | 1 => rfl
    | n + 2 =>
      simp only [Action.rest, boundOf, Command.bound, Action.strides]
      omega
  | _ => rfl

/-- Whichever way the branches go, taking out the first action pays for its steps. -/
theorem boundOf_of_next? {w : World} {cs rest : List Command} {a : Action}
    (h : next? w cs = some (a, rest)) : a.strides + boundOf rest ≤ boundOf cs := by
  fun_induction next? w cs with
  | case1 => cases h
  | case2 b ds =>
    cases h
    simp only [boundOf, Command.bound]
    exact Nat.le_refl _
  | case3 n body ds ih =>
    have hle := ih h
    simp only [boundOf_append, boundOf_rounds] at hle
    simpa only [boundOf, Command.bound] using hle
  | case4 negated thenDo elseDo ds ih =>
    -- the block that is taken is no longer than the longer one
    have hle := ih h
    rw [boundOf_append] at hle
    simp only [boundOf, Command.bound]
    split at hle <;> omega

namespace Machine

variable {m : Machine}

/-- A run under way that can pay for the longest way through its commands, in a world in which
the robot stands in a free cell. -/
structure Funded (m : Machine) : Prop where
  unfinished : m.executor.outcome? = none
  standing : m.world.Standing
  funds : m.context.count + boundOf m.executor.pending ≤ m.context.budget

/-- What one step of a funded machine comes to: a funded machine with a shorter way to go, or an
end that is no fault. -/
theorem Funded.step (h : m.Funded) :
    (∃ e m', m.step = (.applied e, m') ∧ m'.Funded ∧
        boundOf m'.executor.pending < boundOf m.executor.pending ∧
        m'.context = { m.context with count := m.context.count + 1 }) ∨
      m.step = m.finish .completed ∨
      m.context.cancelled = true ∧ m.step = m.finish .cancelled := by
  cases hcancelled : m.context.cancelled with
  | true =>
    exact Or.inr (Or.inr ⟨rfl, step_of_cancelled h.unfinished hcancelled⟩)
  | false =>
    cases hnext : next? m.world m.executor.pending with
    | none =>
      exact Or.inr (Or.inl (step_of_none h.unfinished hcancelled hnext))
    | some next =>
      obtain ⟨a, rest⟩ := next
      obtain ⟨e, w, hperform, hstanding⟩ := a.perform_standing h.standing
      have hbound := boundOf_of_next? hnext
      have hrest := a.boundOf_rest
      have hfunds := h.funds
      -- the action takes a step, so the way is not at its end and the budget not used up
      have hopen : ¬ m.context.budget ≤ m.context.count := by omega
      let m' : Machine :=
        { world := w
          executor := { pending := a.rest ++ rest }
          context := { m.context with count := m.context.count + 1 } }
      have hstep : m.step = (.applied e, m') :=
        step_of_performed h.unfinished hcancelled hnext hopen hperform
      refine Or.inl ⟨e, m', hstep, ⟨rfl, hstanding, ?_⟩, ?_, rfl⟩
      · simp only [m', boundOf_append]
        omega
      · simp only [m', boundOf_append]
        omega

/-- A funded machine that nobody cancels completes, after no more steps than the longest way
through its commands has. -/
theorem Funded.run (h : m.Funded) (hc : m.context.cancelled = false) :
    m.run.outcome = .completed ∧ m.run.events.length ≤ boundOf m.executor.pending := by
  -- every step leaves a shorter way to go
  induction hn : boundOf m.executor.pending using Nat.strongRecOn generalizing m with
  | _ n ih =>
    subst hn
    rcases h.step with ⟨e, m', hstep, hfunded, hlt, hcontext⟩ | hstep | ⟨hcancelled, -⟩
    · obtain ⟨houtcome, hlength⟩ := ih _ hlt hfunded (by rw [hcontext, hc]) rfl
      rw [run_of_applied hstep]
      exact ⟨houtcome, by simp only [List.length_cons]; omega⟩
    · rw [run_of_finished hstep]
      exact ⟨rfl, Nat.zero_le _⟩
    · rw [hc] at hcancelled
      cases hcancelled

end Machine

end RobotPuzzle
