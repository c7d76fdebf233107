import Mathlib.Data.Nat.Digits.Defs
import RobotPuzzle.Proofs.Acceptance
import RobotPuzzle.Proofs.Spacing

/-!
# How numbers are judged

The number of a move or of a loop may be written with a sign and with any number of digits. It is
judged by the integer that it denotes: first whether it is positive, then whether the steps it asks
for are within the budget, and last whether it is too large. Compiling comes to just this verdict
unless the number is beyond 64 bits or the budget is as large as the counter goes. An integer beyond
64 bits is too large whatever else could be said of it, and no number is over a budget that the
counter never exceeds.

## Main definitions

* `Numeral` — a sign and decimal digits, with the integer that they denote
* `Meter.verdict` — what there is to be said to an integer, with exact sums and products
* `Meter.answer` — what compiling says to it
* `Meter.Fair` — when these two are the same

## Main results

* `isNumber_iff`, `denoted_text` — the numbers of a text are numerals and denote what they should
* `answer_eq_verdict_iff` — when compiling gives its due to an integer
* `compile_judges_values` — the answers to moves and loops, and when they are the due ones
-/

namespace RobotPuzzle

/-! ### Numerals -/

/-- A written number: digits, of which the first ones may be zeros, and a minus sign or none. -/
structure Numeral where
  negative : Bool
  first : Fin 10
  more : List (Fin 10)
  deriving DecidableEq, Repr

/-- The character of a decimal digit. -/
def digitOf (d : Fin 10) : Char := Nat.digitChar d

theorem exists_digitOf_eq_iff {c : Char} : (∃ d, digitOf d = c) ↔ c.isDigit = true := by
  constructor
  · rintro ⟨d, rfl⟩
    exact Nat.isDigit_digitChar.trans (decide_eq_true d.isLt)
  · intro hc
    obtain ⟨hlow, hhigh⟩ := Char.isDigit_iff_toNat.mp hc
    have hzero : '0'.toNat = 48 := rfl
    have hnine : '9'.toNat = 57 := rfl
    have hlt : c.toNat - 48 < 10 := by omega
    refine ⟨⟨c.toNat - 48, hlt⟩, Char.toNat_inj.mp ?_⟩
    rw [digitOf, Nat.toNat_digitChar_of_lt_ten hlt]
    omega

theorem exists_map_digitOf_eq_iff {cs : List Char} :
    (∃ ds : List (Fin 10), ds.map digitOf = cs) ↔ cs.all Char.isDigit = true := by
  induction cs with
  | nil => simp
  | cons c cs ih =>
    rw [List.all_cons, Bool.and_eq_true, ← ih, ← exists_digitOf_eq_iff]
    constructor
    · rintro ⟨_ | ⟨d, ds⟩, hds⟩
      · cases hds
      · cases hds
        exact ⟨⟨d, rfl⟩, ds, rfl⟩
    · rintro ⟨⟨d, rfl⟩, ds, rfl⟩
      exact ⟨d :: ds, rfl⟩

/-- Decimal digits denote the number that has them as its digits, the last one being the lowest. -/
theorem digitsValue_map_digitOf (ds : List (Fin 10)) :
    digitsValue (ds.map digitOf) = Nat.ofDigits 10 (ds.reverse.map Fin.val) := by
  -- the value is built up from the left, so the last digit comes to it last
  induction ds using List.reverseRecOn with
  | nil => rfl
  | append_singleton ds d ih =>
    have hlast : (digitOf d).toNat - '0'.toNat = d := by
      rw [digitOf, Nat.toNat_digitChar_of_lt_ten d.isLt]
      exact Nat.add_sub_cancel_left 48 _
    rw [List.map_append, digitsValue, List.foldl_append, ← digitsValue, ih,
      List.reverse_concat, List.map_singleton, List.map_cons, Nat.ofDigits_cons, List.foldl_cons,
      List.foldl_nil, hlast, Nat.add_comm]

namespace Numeral

variable (x : Numeral)

/-- The digits of a numeral. -/
def digits : List (Fin 10) := x.first :: x.more

/-- The characters of a numeral. -/
def spelling : List Char :=
  if x.negative then '-' :: x.digits.map digitOf else x.digits.map digitOf

/-- A numeral as it is written. -/
def text : String := String.ofList x.spelling

/-- The integer that a numeral denotes. -/
def value : Int :=
  let magnitude : Nat := Nat.ofDigits 10 (x.digits.reverse.map Fin.val)
  if x.negative then -(magnitude : Int) else magnitude

/-- No decimal digit is a minus sign. -/
theorem digits_ne_sign (cs : List Char) : x.digits.map digitOf ≠ '-' :: cs := by
  intro heq
  have hdigit : (digitOf x.first).isDigit = true := exists_digitOf_eq_iff.mp ⟨_, rfl⟩
  rw [(List.cons.inj heq).1] at hdigit
  exact absurd hdigit (by decide)

theorem denoted_text : denoted x.text = x.value := by
  unfold denoted text spelling value
  rw [String.toList_ofList]
  cases x.negative with
  | true =>
    simp only [if_true]
    rw [digitsValue_map_digitOf]
  | false =>
    simp only [Bool.false_eq_true, if_false]
    -- without a sign, the first digit must not be taken for one
    split
    · next cs hcs => exact absurd hcs (x.digits_ne_sign cs)
    · rw [digitsValue_map_digitOf]

end Numeral

theorem isDigits_iff {cs : List Char} :
    IsDigits cs ↔ ∃ (d : Fin 10) (ds : List (Fin 10)), (d :: ds).map digitOf = cs := by
  cases cs with
  | nil => exact ⟨False.elim, fun ⟨_, _, h⟩ => nomatch h⟩
  | cons c cs =>
    rw [IsDigits, ← exists_digitOf_eq_iff, ← exists_map_digitOf_eq_iff]
    constructor
    · rintro ⟨⟨d, rfl⟩, ds, rfl⟩
      exact ⟨d, ds, rfl⟩
    · rintro ⟨d, ds, h⟩
      cases h
      exact ⟨⟨d, rfl⟩, ds, rfl⟩

/-- The numbers that may stand in a text are the numerals. -/
theorem isNumber_iff {cs : List Char} : IsNumber cs ↔ ∃ x : Numeral, x.spelling = cs := by
  unfold IsNumber
  split
  · next cs =>
    rw [isDigits_iff]
    constructor
    · rintro ⟨d, ds, rfl⟩
      exact ⟨⟨true, d, ds⟩, rfl⟩
    · rintro ⟨⟨_ | _, d, ds⟩, h⟩
      · exact absurd h (Numeral.digits_ne_sign _ _)
      · exact ⟨d, ds, (List.cons.inj h).2⟩
  · next hsign =>
    rw [isDigits_iff]
    constructor
    · rintro ⟨d, ds, rfl⟩
      exact ⟨⟨false, d, ds⟩, rfl⟩
    · rintro ⟨⟨_ | _, d, ds⟩, h⟩
      · exact ⟨d, ds, h⟩
      · exact absurd h.symm (hsign _)

theorem genuine_number_iff (digits : String) :
    (Token.number digits).Genuine ↔ ∃ x : Numeral, x.text = digits := by
  refine isNumber_iff.trans (exists_congr fun x => ?_)
  rw [Numeral.text, ← String.toList_inj, String.toList_ofList]

/-! ### Verdicts -/

/-- What there is to be said to an integer. -/
inductive Verdict | tooSmall | overBudget | tooLarge | accepted
  deriving DecidableEq, Repr

/-- How a verdict on the number of a statement is announced, when the number asks for some steps and
the statement would come to some commands. -/
def Verdict.outcome (m : Meter) (steps : Nat) (fragment : String) (line : Nat)
    (cs : List Command) : Verdict → Except ProgramError (List Command × Meter)
  | tooSmall => .error (.argument fragment line .tooSmall)
  | overBudget => .error (.overBudget (m.after steps).used m.budget)
  | tooLarge => .error (.argument fragment line .tooLarge)
  | accepted => .ok (cs, m.after steps)

namespace Meter

/-- What is to be said to the integer `v` that asks for `each` steps `v` times. -/
def verdict (m : Meter) (each : Nat) (v : Int) : Verdict :=
  if v ≤ 0 then .tooSmall
  else if m.budget < m.used + each * v.toNat then .overBudget
  else if maxArgument < v then .tooLarge
  else .accepted

/-- What compiling says to it. -/
def answer (m : Meter) (each : Nat) (v : Int) : Verdict :=
  if ¬ FitsWord v then .tooLarge
  else if v ≤ 0 then .tooSmall
  else if m.budget < saturate (m.used + each * v.toNat) then .overBudget
  else if maxArgument < v then .tooLarge
  else .accepted

/-- An integer that is positive and within the budget, or one of 64 bits that is not positive or
stands under a budget which the counter can exceed. -/
def Fair (m : Meter) (each : Nat) (v : Int) : Prop :=
  0 < v ∧ m.used + each * v.toNat ≤ m.budget ∨ FitsWord v ∧ (v ≤ 0 ∨ m.budget < counterLimit)

/-- Compiling gives its due to just the integers that are judged fairly. -/
theorem answer_eq_verdict_iff {m : Meter} (hbudget : m.budget ≤ counterLimit) (each : Nat)
    (v : Int) : m.answer each v = m.verdict each v ↔ m.Fair each v := by
  unfold answer verdict Fair FitsWord saturate maxArgument
  unfold counterLimit at *
  -- only the number of steps that are asked for matters, not how it comes about
  generalize each * v.toNat = steps
  split_ifs <;> simp only [true_iff, false_iff] <;> omega

theorem of_verdict_eq_accepted {m : Meter} {each : Nat} {v : Int}
    (h : m.verdict each v = .accepted) : 0 < v ∧ m.used + each * v.toNat ≤ m.budget := by
  unfold verdict at h
  split_ifs at h with hpos hover hlarge
  exact ⟨Int.not_le.mp hpos, Nat.le_of_not_lt hover⟩

end Meter

namespace Verdict

variable {m : Meter} {steps line : Nat} {fragment : String} {cs ds : List Command}

theorem outcome_inj {v v' : Verdict}
    (h : v.outcome m steps fragment line cs = v'.outcome m steps fragment line ds) : v = v' := by
  cases v <;> cases v' <;> first | rfl | cases h

/-- What the statement would come to does not matter unless its number is accepted. -/
theorem outcome_congr {v : Verdict} (h : v = .accepted → cs = ds) :
    v.outcome m steps fragment line cs = v.outcome m steps fragment line ds := by
  cases v with
  | accepted => rw [h rfl]
  | _ => rfl

end Verdict

/-! ### What compiling says -/

section Judged

variable {m : Meter} {each : Nat}

/-- A positive number is charged, and then it may still turn out to be too large. -/
theorem charged_eq (accept : Nat → List Command) (fragment : String) (line : Nat) {k n : Nat}
    (hk : saturate (m.used + k) = saturate (m.used + each * n)) :
    (do
      let m' ← m.charge k
      checkAtMost (saturate n) fragment line
      pure (accept (saturate n), m')) =
    (if m.budget < saturate (m.used + each * n) then Verdict.overBudget
      else if maxArgument < n then .tooLarge else .accepted).outcome m (each * n) fragment line
        (accept n) := by
  rw [Meter.charge, hk]
  by_cases hover : m.budget < saturate (m.used + each * n)
  · rw [if_pos hover, if_pos hover]
    rfl
  · rw [if_neg hover, if_neg hover]
    change (checkAtMost (saturate n) fragment line >>= _) = _
    by_cases hlarge : maxArgument < n
    · -- what the counter shows of the number is too large as well
      have hshown : maxArgument < saturate n := Nat.lt_min.mpr ⟨hlarge, by decide⟩
      rw [checkAtMost, if_pos hshown, if_pos hlarge]
      rfl
    · have hshown : saturate n = n :=
        saturate_eq_self (Nat.le_trans (Nat.le_of_not_lt hlarge) (by decide))
      rw [hshown, checkAtMost, if_neg hlarge, if_neg hlarge]
      rfl

/-- A number is checked, charged and checked again. The steps that it asks for are charged as
`steps` gives them, which may depend on the counter. -/
theorem judged_eq (steps : Nat → Nat) (accept : Nat → List Command) (digits fragment : String)
    (line : Nat)
    (hsteps : ∀ n, 1 ≤ n → saturate (m.used + steps (saturate n)) = saturate (m.used + each * n)) :
    (do
      let n ← positive digits fragment line
      let m' ← m.charge (steps n)
      checkAtMost n fragment line
      pure (accept n, m')) =
    (m.answer each (denoted digits)).outcome m (each * (denoted digits).toNat) fragment line
      (accept (denoted digits).toNat) := by
  unfold positive Meter.answer
  generalize denoted digits = v
  by_cases hword : FitsWord v
  · by_cases hpos : v ≤ 0
    · have hlt : v < 1 := by omega
      simp only [hword, hpos, hlt, if_true]
      rfl
    · have hge : ¬ v < 1 := by omega
      have hlarge : (maxArgument : Int) < v ↔ maxArgument < v.toNat := Int.lt_toNat.symm
      simp only [hword, hpos, hge, not_true_eq_false, if_false, hlarge]
      exact charged_eq accept fragment line (hsteps v.toNat (by omega))
  · simp only [hword, not_false_eq_true, if_true]
    rfl

/-- A move asks for one step for each cell. -/
theorem compile_move_eq {name text : String} {heading : Heading} {l : Location} (digits : String)
    (hverb : Verb.ofName? name = some (.move heading)) :
    (Statement.call name (some digits) text l).compile m =
      (m.answer 1 (denoted digits)).outcome m (1 * (denoted digits).toNat) text l.line
        [.act (.move heading (denoted digits).toNat)] := by
  have hsteps : ∀ n, 1 ≤ n → saturate (m.used + saturate n) = saturate (m.used + 1 * n) := by
    intro n _
    rw [saturate_add_saturate, Nat.one_mul]
  rw [← judged_eq (fun n => n) (fun n => [.act (.move heading n)]) digits text l.line hsteps,
    Statement.compile]
  unfold compileCall
  rw [hverb]
  simp only [bind_assoc, pure_bind]

/-- Every statement is charged, so it compiles only under a meter that is within its budget. -/
theorem within_of_compile {s : Statement} {m' : Meter} {cs : List Command}
    (hm : m.used ≤ counterLimit) (h : s.compile m = .ok (cs, m')) : m.Within := by
  have hcharge : ∃ k, m.charge k = .ok m' := by
    cases s with
    | call name argument text l =>
      obtain ⟨a, -, -, hcharge, -⟩ := compile_call_eq_ok_iff.mp h
      exact ⟨_, hcharge⟩
    | loop count body l =>
      obtain ⟨commands, inner, -, -, hcharge, -⟩ := compile_loop_eq_ok_iff.mp h
      exact ⟨_, hcharge⟩
    | branch condition thenBlock elseBlock =>
      obtain ⟨-, thenDo, thenMeter, elseDo, elseMeter, -, -, hcharge, -⟩ :=
        compile_branch_eq_ok_iff.mp h
      exact ⟨_, hcharge⟩
  obtain ⟨k, hcharge⟩ := hcharge
  obtain ⟨hafford, -⟩ := Meter.charge_eq_ok_iff_affords.mp hcharge
  exact ⟨hm, saturate_eq_self hm ▸ hafford.mono (Nat.zero_le k)⟩

/-- A block that compiles leaves the meter with its work added, whatever the meter was before. -/
theorem eq_after_of_compileBlock {ss : List Statement} {m' : Meter} {cs : List Command}
    (hm : m.used ≤ counterLimit) (h : compileBlock ss m = .ok (cs, m')) :
    m' = m.after (workOfBlock ss) := by
  cases ss with
  | nil =>
    cases h
    exact (Meter.after_zero hm).symm
  | cons s ss =>
    obtain ⟨first, next, rest, hfirst, -, -⟩ := compileBlock_cons_eq_ok_iff.mp h
    have hwithin := within_of_compile hm hfirst
    exact ((exists_compileBlock_iff (s :: ss) hwithin).mp ⟨cs, h⟩).2.2

/-- A loop asks for the steps of its body for each of its rounds. -/
theorem compile_loop_eq {body : List Statement} {commands : List Command} {inner : Meter}
    {l : Location} (digits : String) (hm : m.used ≤ counterLimit)
    (hbody : compileBlock body m = .ok (commands, inner)) :
    (Statement.loop digits body l).compile m =
      (m.answer (workOfBlock body) (denoted digits)).outcome m
        (workOfBlock body * (denoted digits).toNat) ("repeat " ++ digits) l.line
        (if inner.used - m.used = 0 then [] else [.loop (denoted digits).toNat commands]) := by
  have hsteps : ∀ n, 1 ≤ n → saturate (m.used + saturate ((inner.used - m.used) * saturate n)) =
      saturate (m.used + workOfBlock body * n) := by
    intro n hn
    -- the meter shows the body and the rounds only up to the limit, which the product forgets again
    have hshown : 1 ≤ saturate n := Nat.le_min.mpr ⟨hn, by decide⟩
    rw [eq_after_of_compileBlock hm hbody, Meter.after, saturate_rounds hm hshown, Nat.mul_comm,
      ← saturate_add_saturate, saturate_mul_saturate, saturate_add_saturate]
  rw [← judged_eq (fun n => saturate ((inner.used - m.used) * n))
    (fun n => if inner.used - m.used = 0 then [] else [.loop n commands]) digits
    ("repeat " ++ digits) l.line hsteps, Statement.compile]
  simp only [hbody, bind, Except.bind]

end Judged

/-- A loop whose rounds fit into the budget is dropped only if there is nothing to do in it. -/
theorem used_sub_eq_zero_iff {m inner : Meter} {body : List Statement} {commands : List Command}
    {v : Int} (hm : m.used ≤ counterLimit) (hbudget : m.budget ≤ counterLimit)
    (hbody : compileBlock body m = .ok (commands, inner))
    (haccepted : m.verdict (workOfBlock body) v = .accepted) :
    inner.used - m.used = 0 ↔ workOfBlock body = 0 := by
  obtain ⟨hpos, hfits⟩ := Meter.of_verdict_eq_accepted haccepted
  have hone : 1 ≤ v.toNat := by omega
  -- a single round fits as well, so the meter shows the work of the body in full
  have hround : workOfBlock body ≤ workOfBlock body * v.toNat := Nat.le_mul_of_pos_right _ hone
  have hinner : inner.used = m.used + workOfBlock body := by
    rw [eq_after_of_compileBlock hm hbody, Meter.after]
    exact saturate_eq_self (by omega)
  omega

/-- The numbers of a text are the numerals, and the integer that one denotes decides what is said to
a move or to a loop whose body compiles. The answer is as it should be just if the integer is judged
fairly. -/
theorem compile_judges_values {m : Meter} (hm : m.used ≤ counterLimit)
    (hbudget : m.budget ≤ counterLimit) :
    (∀ digits, (Token.number digits).Genuine ↔ ∃ x : Numeral, x.text = digits) ∧
    ∀ x : Numeral,
      (∀ name heading text l, Verb.ofName? name = some (.move heading) →
        let r := (Statement.call name (some x.text) text l).compile m
        let said := Verdict.outcome m x.value.toNat text l.line
          [.act (.move heading x.value.toNat)]
        r = said (m.answer 1 x.value) ∧ (r = said (m.verdict 1 x.value) ↔ m.Fair 1 x.value)) ∧
      ∀ body commands inner l, compileBlock body m = .ok (commands, inner) →
        let c := workOfBlock body
        let r := (Statement.loop x.text body l).compile m
        let said := fun done : Nat =>
          Verdict.outcome m (c * x.value.toNat) ("repeat " ++ x.text) l.line
            (if done = 0 then [] else [.loop x.value.toNat commands])
        r = said (inner.used - m.used) (m.answer c x.value) ∧
          (r = said c (m.verdict c x.value) ↔ m.Fair c x.value) := by
  refine ⟨genuine_number_iff, fun x => ⟨?_, ?_⟩⟩
  · intro name heading text l hverb r said
    have hr : r = said (m.answer 1 x.value) := by
      have hmove : r = _ := compile_move_eq x.text hverb
      rwa [x.denoted_text, Nat.one_mul] at hmove
    refine ⟨hr, ?_⟩
    rw [hr, ← Meter.answer_eq_verdict_iff hbudget]
    exact ⟨Verdict.outcome_inj, congrArg said⟩
  · intro body commands inner l hbody c r said
    have hr : r = said (inner.used - m.used) (m.answer c x.value) := by
      have hloop : r = _ := compile_loop_eq x.text hm hbody
      rwa [x.denoted_text] at hloop
    refine ⟨hr, ?_⟩
    rw [hr, ← Meter.answer_eq_verdict_iff hbudget]
    refine ⟨Verdict.outcome_inj, fun h => ?_⟩
    rw [h]
    refine Verdict.outcome_congr fun haccepted => ?_
    simp only [used_sub_eq_zero_iff hm hbudget hbody haccepted]
    rfl

/-- With three of twenty steps used, seven steps back and seven rounds of a step are accepted,
however many zeros are written before them; zero is too small with a sign before it, too. -/
theorem compile_judges_values_seven :
    let m : Meter := { used := 3, budget := 20 }
    let x : Numeral := ⟨false, 0, [0, 7]⟩
    let y : Numeral := ⟨true, 0, []⟩
    let body : List Statement := [.call "collect" none "collect" ⟨1, 12⟩]
    (m.used ≤ counterLimit ∧ m.budget ≤ counterLimit ∧
        Verb.ofName? "back" = some (.move .backward) ∧
        compileBlock body m = .ok ([.act .collect], { m with used := 4 })) ∧
      x.text = "007" ∧ m.Fair 1 x.value ∧ m.Fair (workOfBlock body) x.value ∧
        m.Fair 1 y.value ∧
      (Statement.call "back" (some x.text) "back 007" ⟨1, 1⟩).compile m =
          .ok ([.act (.move .backward 7)], { m with used := 10 }) ∧
        (Statement.loop x.text body ⟨1, 1⟩).compile m =
          .ok ([.loop 7 [.act .collect]], { m with used := 10 }) ∧
        (Statement.call "back" (some y.text) "back -0" ⟨1, 1⟩).compile m =
          .error (.argument "back -0" 1 .tooSmall) := by
  intro m x y body
  have hm : m.used ≤ counterLimit := by decide
  have hbudget : m.budget ≤ counterLimit := by decide
  have hverb : Verb.ofName? "back" = some (.move .backward) := rfl
  have hbody : compileBlock body m = .ok ([.act .collect], { m with used := 4 }) := by
    decide +kernel
  have hx : m.Fair 1 x.value := .inl (by decide)
  have hloop : m.Fair (workOfBlock body) x.value := .inl (by decide)
  have hy : m.Fair 1 y.value := .inr ⟨by decide, .inl (by decide)⟩
  obtain ⟨hmoves, hloops⟩ := (compile_judges_values hm hbudget).2 x
  obtain ⟨hsigned, -⟩ := (compile_judges_values hm hbudget).2 y
  have hseven := (hmoves "back" .backward "back 007" ⟨1, 1⟩ hverb).2.mpr hx
  have hrounds := (hloops body _ _ ⟨1, 1⟩ hbody).2.mpr hloop
  have hzero := (hsigned "back" .backward "back -0" ⟨1, 1⟩ hverb).2.mpr hy
  exact ⟨⟨hm, hbudget, hverb, hbody⟩, by decide, hx, hloop, hy, hseven.trans (by decide +kernel),
    hrounds.trans (by decide +kernel), hzero.trans (by decide +kernel)⟩

/-- An integer below those of 64 bits is called too large, although it is not positive. -/
theorem not_compile_judges_values :
    ¬ ∀ (m : Meter) (x : Numeral) (text : String) (l : Location),
        m.used ≤ m.budget → m.budget ≤ counterLimit →
          (Statement.call "forward" (some x.text) text l).compile m =
            (m.verdict 1 x.value).outcome m x.value.toNat text l.line
              [.act (.move .forward x.value.toNat)] := by
  intro hall
  -- the integer is -9223372036854775809
  have hanswer := hall { used := 0, budget := 10 }
    ⟨true, 9, [2, 2, 3, 3, 7, 2, 0, 3, 6, 8, 5, 4, 7, 7, 5, 8, 0, 9]⟩
    "forward -9223372036854775809" ⟨1, 1⟩ (by decide) (by decide)
  exact absurd hanswer (by decide +kernel)

end RobotPuzzle
