import Mathlib.Data.List.Basic
import RobotPuzzle.Proofs.Metering

/-!
# Answers under different budgets

A budget is asked for in one place only, where a charge is compared with it. Compiling under two
budgets therefore runs alike up to the first charge that only the larger one allows. So raising
the budget changes no answer but that the program is too dear, and the charge that is reported
then is one that no smaller budget allows either.

## Main definitions

* `Settled` — an answer that is the same under all larger budgets, or fails at a charge

## Main results

* `settled_compileBlock` — every answer of compiling is settled
* `parse_under_budgets` — what raising or lowering the budget changes
-/

namespace RobotPuzzle

/-- The answer is not that a program is too dear. -/
def Affordable {α : Type} (x : Except ProgramError α) : Prop :=
  ∀ required limit, x ≠ .error (.overBudget required limit)

/-- How an answer under the budget `b`, with the meter it leaves, looks under larger budgets. A
charge that is too much for `b` stays too much for every budget it exceeds; any other answer
stays, and so does what the meter has counted. -/
inductive Settled {α : Type} (b : Nat) (f : Nat → Except ProgramError (α × Meter)) : Prop
  | overBudget (required : Nat) (hlt : b < required)
      (h : ∀ b', b ≤ b' → b' < required → f b' = .error (.overBudget required b'))
  | refused (e : ProgramError) (he : ∀ required limit, e ≠ .overBudget required limit)
      (h : ∀ b', b ≤ b' → f b' = .error e)
  | accepted (a : α) (used : Nat) (h : ∀ b', b ≤ b' → f b' = .ok (a, ⟨used, b'⟩))

namespace Settled

variable {α β : Type} {b u steps : Nat}

theorem congr {f g : Nat → Except ProgramError (α × Meter)} (hg : Settled b g)
    (h : ∀ b', b ≤ b' → f b' = g b') : Settled b f := by
  cases hg with
  | overBudget required hlt hg =>
    exact .overBudget required hlt fun b' hle hless => (h b' hle).trans (hg b' hle hless)
  | refused e he hg => exact .refused e he fun b' hle => (h b' hle).trans (hg b' hle)
  | accepted a used hg => exact .accepted a used fun b' hle => (h b' hle).trans (hg b' hle)

theorem pure (a : α) (used : Nat) :
    Settled b fun b' => (Pure.pure (a, ⟨used, b'⟩) : Except ProgramError (α × Meter)) :=
  .accepted a used fun _ _ => rfl

theorem error {e : ProgramError} (he : ∀ required limit, e ≠ .overBudget required limit) :
    Settled b fun _ => (.error e : Except ProgramError (α × Meter)) :=
  .refused e he fun _ _ => rfl

/-- What follows a settled answer goes on with its value and its meter. -/
theorem bind {f : Nat → Except ProgramError (α × Meter)}
    {g : Nat → α × Meter → Except ProgramError (β × Meter)} (hf : Settled b f)
    (hg : ∀ a used, Settled b fun b' => g b' (a, ⟨used, b'⟩)) :
    Settled b fun b' => f b' >>= g b' := by
  cases hf with
  | overBudget required hlt h =>
    refine .overBudget required hlt fun b' hle hless => ?_
    rw [h b' hle hless]
    rfl
  | refused e he h =>
    refine .refused e he fun b' hle => ?_
    rw [h b' hle]
    rfl
  | accepted a used h =>
    refine (hg a used).congr fun b' hle => ?_
    rw [h b' hle]
    rfl

/-- A check that leaves the meter alone answers the same under all budgets. -/
theorem check {x : Except ProgramError α} {g : Nat → α → Except ProgramError (β × Meter)}
    (hx : Affordable x) (hg : ∀ a, Settled b fun b' => g b' a) :
    Settled b fun b' => x >>= g b' := by
  cases x with
  | error e => exact error fun required limit he => hx required limit (congrArg _ he)
  | ok a => exact hg a

/-- A charge is too much for the budgets below what it comes to and fits into all others. -/
theorem charge {g : Nat → Meter → Except ProgramError (β × Meter)}
    (hg : ∀ used, Settled b fun b' => g b' ⟨used, b'⟩) :
    Settled b fun b' => (⟨u, b'⟩ : Meter).charge steps >>= g b' := by
  -- what a charge comes to does not depend on the budget
  by_cases hlt : b < saturate (u + steps)
  · refine .overBudget _ hlt fun b' _ hless => ?_
    simp only [Meter.charge, if_pos hless]
    rfl
  · refine (hg (saturate (u + steps))).congr fun b' hle => ?_
    have hfits : ¬ b' < saturate (u + steps) := by omega
    simp only [Meter.charge, if_neg hfits]
    rfl

end Settled

theorem affordable_positive (digits fragment : String) (line : Nat) :
    Affordable (positive digits fragment line) := by
  intro required limit h
  simp only [positive] at h
  split at h
  · cases h
  · split at h <;> cases h

theorem affordable_checkAtMost (n : Nat) (fragment : String) (line : Nat) :
    Affordable (checkAtMost n fragment line) := by
  intro required limit h
  unfold checkAtMost at h
  split at h <;> cases h

theorem settled_compileCall (name : String) (argument : Option String) (text : String)
    (l : Location) (u b : Nat) : Settled b fun b' => compileCall name argument text l ⟨u, b'⟩ := by
  unfold compileCall
  cases Verb.ofName? name with
  | none => exact .error fun _ _ => nofun
  | some verb =>
    cases verb with
    | move heading =>
      cases argument with
      | none => exact .error fun _ _ => nofun
      | some digits =>
        -- a number is found too large only after its steps were charged
        refine .check (affordable_positive digits text l.line) fun n => ?_
        refine .charge fun used => ?_
        exact .check (affordable_checkAtMost n text l.line) fun _ => .pure _ used
    | plain action =>
      cases argument with
      | none => exact .charge fun used => .pure _ used
      | some digits => exact .error fun _ _ => nofun

mutual

theorem settled_compile (s : Statement) (u b : Nat) : Settled b fun b' => s.compile ⟨u, b'⟩ := by
  cases s with
  | call name argument text l =>
    simp only [Statement.compile]
    refine (settled_compileCall name argument text l u b).bind fun a used => ?_
    exact .pure [Command.act a] used
  | loop count body l =>
    simp only [Statement.compile]
    refine .check (affordable_positive count ("repeat " ++ count) l.line) fun n => ?_
    -- the copy of the meter that goes through the body is settled like the meter itself
    refine (settled_compileBlock body u b).bind fun commands inner => ?_
    dsimp only
    refine .charge fun used => ?_
    refine .check (affordable_checkAtMost n ("repeat " ++ count) l.line) fun _ => ?_
    exact .pure (if inner - u = 0 then [] else [Command.loop n commands]) used
  | branch condition thenBlock elseBlock =>
    simp only [Statement.compile]
    split
    · refine (settled_compileBlock thenBlock u b).bind fun thenDo thenUsed => ?_
      refine (settled_compileElse elseBlock u b).bind fun elseDo elseUsed => ?_
      dsimp only
      refine .charge fun used => ?_
      exact .pure (if max thenUsed elseUsed - u = 0 then []
        else [Command.branch condition.negated thenDo elseDo]) used
    · exact .error fun _ _ => nofun

theorem settled_compileElse (block? : Option (List Statement)) (u b : Nat) :
    Settled b fun b' => compileElse block? ⟨u, b'⟩ := by
  cases block? with
  | none => exact .accepted [] u fun _ _ => rfl
  | some block => exact settled_compileBlock block u b

/-- Whatever compiling a block answers under a budget is settled for all larger ones. -/
theorem settled_compileBlock (ss : List Statement) (u b : Nat) :
    Settled b fun b' => compileBlock ss ⟨u, b'⟩ := by
  cases ss with
  | nil => exact .accepted [] u fun _ _ => rfl
  | cons s ss =>
    simp only [compileBlock]
    refine (settled_compile s u b).bind fun first used => ?_
    exact (settled_compileBlock ss used b).bind fun rest last => .pure (first ++ rest) last

end

/-! ### Whole programs -/

theorem parse_of_error {source : String} {e : ProgramError} (h : parseStatements source = .error e)
    (b : Nat) : parse source b = .error e := by
  simp only [parse, h]
  rfl

theorem parse_of_ok {source : String} {ss : List Statement} (h : parseStatements source = .ok ss)
    (b : Nat) : parse source b = compile ss b := by
  simp only [parse, h]
  rfl

/-- A mistake in the text is no matter of the budget. -/
theorem affordable_parseStatements (source : String) : Affordable (parseStatements source) := by
  intro required limit h
  unfold parseStatements at h
  split at h
  · cases h
  · simp [ProgramError.ofOffset] at h

/-- The answer on a program's text under a budget, in terms of larger budgets: either a charge
that is too much for all budgets it exceeds, or an answer that stays. -/
theorem parse_cases (source : String) (b : Nat) :
    (∃ required, b < required ∧ ∀ b', b ≤ b' → b' < required →
        parse source b' = .error (.overBudget required b')) ∨
      Affordable (parse source b) ∧ ∀ b', b ≤ b' → parse source b' = parse source b := by
  cases hread : parseStatements source with
  | error e =>
    simp only [parse_of_error hread]
    refine .inr ⟨fun required limit h => ?_, fun _ _ => trivial⟩
    exact affordable_parseStatements source required limit (by rw [hread, Except.error.inj h])
  | ok ss =>
    simp only [parse_of_ok hread, compile]
    cases settled_compileBlock ss 0 b with
    | overBudget required hlt h =>
      refine .inl ⟨required, hlt, fun b' hle hless => ?_⟩
      rw [h b' hle hless]
      rfl
    | refused e he h =>
      rw [h b (Nat.le_refl _)]
      refine .inr ⟨fun required limit heq => ?_, fun b' hle => ?_⟩
      · exact he required limit (Except.error.inj heq)
      · rw [h b' hle]
    | accepted cs used h =>
      rw [h b (Nat.le_refl _)]
      refine .inr ⟨fun required limit heq => ?_, fun b' hle => ?_⟩
      · cases heq
      · rw [h b' hle]
        rfl

/-- Raising the budget changes no answer but that the program is too dear. That answer names the
budget and what the program requires at least: more than this budget, and so much that every
smaller budget than what is required gives an answer of this kind. -/
theorem parse_under_budgets (source : String) (b : Nat) :
    (∀ b', b ≤ b' → (∀ required limit, parse source b ≠ .error (.overBudget required limit)) →
        parse source b' = parse source b) ∧
      ∀ required limit, parse source b = .error (.overBudget required limit) →
        limit = b ∧ b < required ∧ ∀ b', b' < required →
          ∃ required', parse source b' = .error (.overBudget required' b') := by
  rcases parse_cases source b with ⟨required₀, hlt, hover⟩ | ⟨hne, hsame⟩
  · have hb := hover b (Nat.le_refl _) hlt
    refine ⟨fun b' _ h => absurd hb (h required₀ b), fun required limit hparse => ?_⟩
    obtain ⟨rfl, rfl⟩ := ProgramError.overBudget.inj (Except.error.inj (hb.symm.trans hparse))
    refine ⟨rfl, hlt, fun b' hless => ?_⟩
    by_cases hle : b ≤ b'
    · exact ⟨required₀, hover b' hle hless⟩
    · -- a smaller budget that gave any other answer would give it under `b` as well
      rcases parse_cases source b' with ⟨required', hlt', hover'⟩ | ⟨hne', hsame'⟩
      · exact ⟨required', hover' b' (Nat.le_refl _) hlt'⟩
      · have heq : parse source b = parse source b' := hsame' b (by omega)
        exact absurd (heq.symm.trans hparse) (hne' required₀ b)
  · exact ⟨fun b' hle _ => hsame b' hle, fun required limit h => absurd h (hne required limit)⟩

/-- A program of eleven steps: under a budget of six it is refused within the first round of its
loop, where seven steps are required, and what it compiles to under a budget of eleven it
compiles to under the largest one. -/
theorem parse_under_budgets_eleven_steps :
    let source := "forward 5; repeat 3 { turnLeft; turnRight }"
    (parse source 6 = .error (.overBudget 7 6) ∧ 3 < 7 ∧
        ∃ required, parse source 3 = .error (.overBudget required 3)) ∧
      11 ≤ counterLimit ∧
        (∀ required limit, parse source 11 ≠ .error (.overBudget required limit)) ∧
        parse source counterLimit = parse source 11 := by
  intro source
  have hover : parse source 6 = .error (.overBudget 7 6) := by decide +kernel
  have hok : parse source 11 =
      .ok [.act (.move .forward 5), .loop 3 [.act .turnLeft, .act .turnRight]] := by
    decide +kernel
  have hne : ∀ required limit, parse source 11 ≠ .error (.overBudget required limit) := by
    rw [hok]
    exact fun _ _ => nofun
  have hle : 11 ≤ counterLimit := by decide
  have hless : 3 < 7 := by decide
  obtain ⟨-, -, hbelow⟩ := (parse_under_budgets source 6).2 7 6 hover
  exact ⟨⟨hover, hless, hbelow 3 hless⟩, hle, hne,
    (parse_under_budgets source 11).1 counterLimit hle hne⟩

end RobotPuzzle
