import RobotPuzzle.Proofs.Preservation

/-!
# Exact acceptance

The meter is copied into the blocks of loops and branches, what a copy has counted is taken back
out of it and charged again, and every sum and product on the way stops at the limit of the
counter. None of this is visible in what is accepted: a syntax tree compiles exactly when every
name and number in it is allowed and its exact work, cut off at the limit once and in the end,
is within the budget.

## Main definitions

* `LegalNumber` — a written number that a program may use
* `Statement.Legal`, `BlockLegal` — trees in which every name and number is allowed
* `Meter.Affords`, `Meter.after` — a charge that fits, and the meter it leaves

## Main results

* `exists_compileBlock_iff` — when a block compiles, and the meter it leaves
* `compile_accepts_iff` — when a tree compiles under a budget, and what its commands cost
-/

namespace RobotPuzzle

/-- A written number that a program may use: the integer it denotes is neither less than one nor
too large. -/
def LegalNumber (digits : String) : Prop := 1 ≤ denoted digits ∧ denoted digits ≤ maxArgument

mutual

/-- A statement in which every verb and sensor is known, every move has an allowed number, every
other verb has none, and every loop has an allowed count. Blocks that compiling leaves out are no
exception. -/
def Statement.Legal : Statement → Prop
  | .call name argument _ _ =>
    match Verb.ofName? name, argument with
    | some (.move _), some digits => LegalNumber digits
    | some (.plain _), none => True
    | _, _ => False
  | .loop count body _ => LegalNumber count ∧ BlockLegal body
  | .branch condition thenBlock elseBlock =>
    isFireSensor condition.sensor = true ∧ BlockLegal thenBlock ∧ ElseLegal elseBlock

/-- The same for the block after `else`, if there is one. -/
def ElseLegal : Option (List Statement) → Prop
  | none => True
  | some block => BlockLegal block

/-- The same for the statements of a block. -/
def BlockLegal : List Statement → Prop
  | [] => True
  | s :: ss => s.Legal ∧ BlockLegal ss

end

theorem legalCount_countOf_iff {digits : String} :
    LegalCount (countOf digits) ↔ LegalNumber digits := by
  unfold LegalCount LegalNumber countOf
  omega

/-- A call is allowed exactly when it denotes an action with an allowed number. -/
theorem legal_call_iff {name text : String} {argument : Option String} {l : Location} :
    (Statement.call name argument text l).Legal ↔
      ∃ a, action? name argument = some a ∧ a.Legal := by
  unfold Statement.Legal action?
  cases hverb : Verb.ofName? name with
  | none => simp
  | some verb =>
    cases verb with
    | move heading => cases argument <;> simp [Action.Legal, legalCount_countOf_iff]
    | plain a =>
      have hlegal : a.Legal := (work_of_plain hverb).1
      cases argument <;> simp [hlegal]

/-! ### Charges -/

namespace Meter

variable {m m' : Meter} {a b : Nat}

/-- The meter after some steps. -/
def after (m : Meter) (steps : Nat) : Meter := { m with used := saturate (m.used + steps) }

/-- The budget allows some steps more. -/
def Affords (m : Meter) (steps : Nat) : Prop := saturate (m.used + steps) ≤ m.budget

/-- A meter as compiling holds it: a counter that shows no more than the budget. -/
structure Within (m : Meter) : Prop where
  counts : m.used ≤ counterLimit
  budget : m.used ≤ m.budget

theorem charge_eq_ok_iff_affords : m.charge a = .ok m' ↔ m.Affords a ∧ m' = m.after a :=
  charge_eq_ok_iff

theorem after_zero (h : m.used ≤ counterLimit) : m.after 0 = m := by
  unfold after
  rw [Nat.add_zero, saturate_eq_self h]

theorem after_after : (m.after a).after b = m.after (a + b) := by
  unfold after
  rw [saturate_saturate_add]

theorem affords_zero (h : m.Within) : m.Affords 0 := by
  unfold Affords
  rw [Nat.add_zero, saturate_eq_self h.counts]
  exact h.budget

theorem affords_after : (m.after a).Affords b ↔ m.Affords (a + b) := by
  unfold Affords after
  rw [saturate_saturate_add]

theorem Affords.mono (h : m.Affords b) (hab : a ≤ b) : m.Affords a := by
  unfold Affords saturate at *
  omega

theorem Affords.within (h : m.Affords a) : (m.after a).Within := ⟨saturate_le _, h⟩

/-- Charging for all rounds of a body what one round added to a copy of the meter. -/
theorem charge_rounds {n : Nat} (h : m.used ≤ counterLimit) (hn : 1 ≤ n) :
    m.charge (saturate (((m.after b).used - m.used) * n)) = .ok m' ↔
      m.Affords (n * b) ∧ m' = m.after (n * b) := by
  have hrounds : saturate (m.used + saturate (((m.after b).used - m.used) * n)) =
      saturate (m.used + n * b) := saturate_rounds h hn
  rw [charge_eq_ok_iff, hrounds]
  rfl

/-- Charging for the longer of two blocks what each of them added to its copy of the meter. -/
theorem charge_longer (h : m.used ≤ counterLimit) :
    m.charge (max (m.after a).used (m.after b).used - m.used) = .ok m' ↔
      m.Affords (max a b) ∧ m' = m.after (max a b) := by
  have hlonger : saturate (m.used + (max (m.after a).used (m.after b).used - m.used)) =
      saturate (m.used + max a b) := saturate_longer h
  rw [charge_eq_ok_iff, hlonger]
  rfl

end Meter

/-! ### What compiles -/

mutual

theorem exists_compile_iff (s : Statement) {m m' : Meter} (hm : m.Within) :
    (∃ cs, s.compile m = .ok (cs, m')) ↔ s.Legal ∧ m.Affords s.work ∧ m' = m.after s.work := by
  cases s with
  | call name argument text l =>
    simp only [compile_call_eq_ok_iff, legal_call_iff, Statement.work]
    constructor
    · rintro ⟨cs, a, haction, hlegal, hcharge, -⟩
      simp only [haction, Option.map_some, Option.getD_some]
      exact ⟨⟨a, rfl, hlegal⟩, Meter.charge_eq_ok_iff_affords.mp hcharge⟩
    · rintro ⟨⟨a, haction, hlegal⟩, hcharge⟩
      simp only [haction, Option.map_some, Option.getD_some] at hcharge
      exact ⟨[.act a], a, haction, hlegal, Meter.charge_eq_ok_iff_affords.mpr hcharge, rfl⟩
  | loop count body l =>
    simp only [compile_loop_eq_ok_iff, legalCount_countOf_iff, Statement.Legal, Statement.work]
    constructor
    · rintro ⟨cs, commands, inner, hbody, hcount, hcharge, -⟩
      obtain ⟨hlegal, -, rfl⟩ := (exists_compileBlock_iff body hm).mp ⟨commands, hbody⟩
      have hpos : 1 ≤ countOf count := (legalCount_countOf_iff.mpr hcount).1
      exact ⟨⟨hcount, hlegal⟩, (Meter.charge_rounds hm.counts hpos).mp hcharge⟩
    · rintro ⟨⟨hcount, hlegal⟩, hafford, rfl⟩
      have hpos : 1 ≤ countOf count := (legalCount_countOf_iff.mpr hcount).1
      -- one round alone is no dearer than all of them
      have hround : m.Affords (workOfBlock body) := hafford.mono (Nat.le_mul_of_pos_left _ hpos)
      obtain ⟨commands, hbody⟩ := (exists_compileBlock_iff body hm).mpr ⟨hlegal, hround, rfl⟩
      exact ⟨_, commands, _, hbody, hcount,
        (Meter.charge_rounds hm.counts hpos).mpr ⟨hafford, rfl⟩, rfl⟩
  | branch condition thenBlock elseBlock =>
    simp only [compile_branch_eq_ok_iff, Statement.Legal, Statement.work]
    constructor
    · rintro ⟨cs, hsensor, thenDo, thenMeter, elseDo, elseMeter, hthen, helse, hcharge, -⟩
      obtain ⟨hthenLegal, -, rfl⟩ := (exists_compileBlock_iff thenBlock hm).mp ⟨thenDo, hthen⟩
      obtain ⟨helseLegal, -, rfl⟩ := (exists_compileElse_iff elseBlock hm).mp ⟨elseDo, helse⟩
      exact ⟨⟨hsensor, hthenLegal, helseLegal⟩, (Meter.charge_longer hm.counts).mp hcharge⟩
    · rintro ⟨⟨hsensor, hthenLegal, helseLegal⟩, hafford, rfl⟩
      -- each block begins with the meter as it is, so neither needs more than the longer one
      have hthenAfford : m.Affords (workOfBlock thenBlock) := hafford.mono (Nat.le_max_left _ _)
      have helseAfford : m.Affords (workOfElse elseBlock) := hafford.mono (Nat.le_max_right _ _)
      obtain ⟨thenDo, hthen⟩ :=
        (exists_compileBlock_iff thenBlock hm).mpr ⟨hthenLegal, hthenAfford, rfl⟩
      obtain ⟨elseDo, helse⟩ :=
        (exists_compileElse_iff elseBlock hm).mpr ⟨helseLegal, helseAfford, rfl⟩
      exact ⟨_, hsensor, thenDo, _, elseDo, _, hthen, helse,
        (Meter.charge_longer hm.counts).mpr ⟨hafford, rfl⟩, rfl⟩

theorem exists_compileElse_iff (block? : Option (List Statement)) {m m' : Meter}
    (hm : m.Within) :
    (∃ cs, compileElse block? m = .ok (cs, m')) ↔
      ElseLegal block? ∧ m.Affords (workOfElse block?) ∧ m' = m.after (workOfElse block?) := by
  cases block? with
  | none =>
    simp [compileElse, ElseLegal, workOfElse, Meter.affords_zero hm, Meter.after_zero hm.counts,
      eq_comm]
  | some block => exact exists_compileBlock_iff block hm

/-- A block compiles exactly when its names and numbers are allowed and the budget affords its
work, and then it leaves the meter with just this work added. -/
theorem exists_compileBlock_iff (ss : List Statement) {m m' : Meter} (hm : m.Within) :
    (∃ cs, compileBlock ss m = .ok (cs, m')) ↔
      BlockLegal ss ∧ m.Affords (workOfBlock ss) ∧ m' = m.after (workOfBlock ss) := by
  cases ss with
  | nil =>
    simp [compileBlock, BlockLegal, workOfBlock, Meter.affords_zero hm, Meter.after_zero hm.counts,
      eq_comm]
  | cons s ss =>
    simp only [compileBlock_cons_eq_ok_iff, BlockLegal, workOfBlock]
    constructor
    · rintro ⟨cs, first, next, rest, hfirst, hrest, -⟩
      obtain ⟨hlegal, hafford, rfl⟩ := (exists_compile_iff s hm).mp ⟨first, hfirst⟩
      obtain ⟨hlegals, haffords, rfl⟩ :=
        (exists_compileBlock_iff ss hafford.within).mp ⟨rest, hrest⟩
      exact ⟨⟨hlegal, hlegals⟩, Meter.affords_after.mp haffords, Meter.after_after⟩
    · rintro ⟨⟨hlegal, hlegals⟩, haffords, rfl⟩
      have hafford : m.Affords s.work := haffords.mono (Nat.le_add_right _ _)
      obtain ⟨first, hfirst⟩ := (exists_compile_iff s hm).mpr ⟨hlegal, hafford, rfl⟩
      obtain ⟨rest, hrest⟩ := (exists_compileBlock_iff ss hafford.within).mpr
        ⟨hlegals, Meter.affords_after.mpr haffords, Meter.after_after.symm⟩
      exact ⟨first ++ rest, first, _, rest, hfirst, hrest, rfl⟩

end

/-- Compiling a block never turns the meter back. -/
theorem used_le_of_compileBlock {ss : List Statement} {m m' : Meter} {cs : List Command}
    (hm : m.used ≤ counterLimit) (h : compileBlock ss m = .ok (cs, m')) : m.used ≤ m'.used := by
  rw [(metered_of_compileBlock ss hm h).used]
  unfold saturate
  omega

theorem costOf_of_compile {ss : List Statement} {budget : Nat} {cs : List Command}
    (h : compile ss budget = .ok cs) : costOf cs = saturate (workOfBlock ss) := by
  obtain ⟨m, hblock⟩ := compile_eq_ok_iff.mp h
  have hm : ({ used := 0, budget } : Meter).Within := ⟨Nat.zero_le _, Nat.zero_le _⟩
  obtain ⟨-, -, hafter⟩ := (exists_compileBlock_iff ss hm).mp ⟨cs, hblock⟩
  -- the same meter shows the work of the tree and the work of the commands
  have hmetered := metered_of_compileBlock ss hm.counts hblock
  rw [costOf_eq, ← Nat.zero_add (workOf cs), ← hmetered.used, hafter, Meter.after, Nat.zero_add]

/-- A tree compiles exactly when every name and number in it is allowed and its exact work, cut
off at the limit of the counter, is within the budget. Its commands then declare just that cost.
Where compiling takes one meter from another, the difference is never negative. -/
theorem compile_accepts_iff (ss : List Statement) (budget : Nat) :
    ((∃ cs, compile ss budget = .ok cs) ↔
        BlockLegal ss ∧ min (workOfBlock ss) counterLimit ≤ budget) ∧
      (∀ cs, compile ss budget = .ok cs → costOf cs = min (workOfBlock ss) counterLimit) ∧
      ∀ m : Meter, m.used ≤ counterLimit →
        (∀ body commands inner, compileBlock body m = .ok (commands, inner) →
          m.used ≤ inner.used) ∧
        ∀ thenBlock thenDo thenMeter elseBlock elseDo elseMeter,
          compileBlock thenBlock m = .ok (thenDo, thenMeter) →
          compileElse elseBlock m = .ok (elseDo, elseMeter) →
          m.used ≤ max thenMeter.used elseMeter.used := by
  have hm : ({ used := 0, budget } : Meter).Within := ⟨Nat.zero_le _, Nat.zero_le _⟩
  refine ⟨?_, fun cs => costOf_of_compile, fun m hcounts => ⟨?_, ?_⟩⟩
  · have haffords : ({ used := 0, budget } : Meter).Affords (workOfBlock ss) ↔
        min (workOfBlock ss) counterLimit ≤ budget := by
      rw [Meter.Affords, Nat.zero_add, saturate]
    rw [← haffords]
    constructor
    · rintro ⟨cs, hcompile⟩
      obtain ⟨m, hblock⟩ := compile_eq_ok_iff.mp hcompile
      obtain ⟨hlegal, hafford, -⟩ := (exists_compileBlock_iff ss hm).mp ⟨cs, hblock⟩
      exact ⟨hlegal, hafford⟩
    · rintro ⟨hlegal, hafford⟩
      obtain ⟨cs, hblock⟩ := (exists_compileBlock_iff ss hm).mpr ⟨hlegal, hafford, rfl⟩
      exact ⟨cs, compile_eq_ok_iff.mpr ⟨_, hblock⟩⟩
  · intro body commands inner hbody
    exact used_le_of_compileBlock hcounts hbody
  · intro thenBlock thenDo thenMeter elseBlock elseDo elseMeter hthen _
    exact Nat.le_trans (used_le_of_compileBlock hcounts hthen) (Nat.le_max_left _ _)

/-- A loop of nine steps is accepted under a budget of nine and refused under one of eight, and a
meter that is already full stays full. -/
theorem compile_accepts_iff_nine_steps :
    let full : Meter := ⟨counterLimit, counterLimit⟩
    let body : List Statement := [.call "collect" none "collect" ⟨1, 1⟩]
    ∃ ss cs, parseStatements "repeat 3 { forward 2 if onFire { cover } else { repeat 50 { } } }" =
        .ok ss ∧
      compile ss 9 = .ok cs ∧ BlockLegal ss ∧ costOf cs = min (workOfBlock ss) counterLimit ∧
      workOfBlock ss = 9 ∧ (¬ ∃ cs', compile ss 8 = .ok cs') ∧
      compileBlock body full = .ok ([.act .collect], full) ∧ full.used ≤ full.used ∧
      compileElse none full = .ok ([], full) ∧ full.used ≤ max full.used full.used := by
  intro full body
  have hparse : parse "repeat 3 { forward 2 if onFire { cover } else { repeat 50 { } } }" 9 =
      .ok [.loop 3 [.act (.move .forward 2), .branch false [.act .cover] []]] := by
    decide +kernel
  obtain ⟨ss, hss, hcompile⟩ := parse_eq_ok_iff.mp hparse
  have hcost := (compile_accepts_iff ss 9).2.1 _ hcompile
  have hnine : costOf [.loop 3 [.act (.move .forward 2), .branch false [.act .cover] []]] = 9 := by
    decide
  have hwork : workOfBlock ss = 9 := by
    rw [hnine] at hcost
    unfold counterLimit at hcost
    omega
  obtain ⟨hlegal, -⟩ := (compile_accepts_iff ss 9).1.mp ⟨_, hcompile⟩
  have hrefused : ¬ ∃ cs, compile ss 8 = .ok cs := by
    intro hexists
    obtain ⟨-, hle⟩ := (compile_accepts_iff ss 8).1.mp hexists
    rw [hwork] at hle
    exact absurd hle (by decide)
  have hbody : compileBlock body full = .ok ([.act .collect], full) := by decide
  have helse : compileElse none full = .ok ([], full) := rfl
  obtain ⟨hround, hlonger⟩ := (compile_accepts_iff ss 9).2.2 full (Nat.le_refl _)
  exact ⟨ss, _, hss, hcompile, hlegal, hcost, hwork, hrefused, hbody, hround _ _ _ hbody, helse,
    hlonger _ _ _ _ _ _ hbody helse⟩

end RobotPuzzle
