import RobotPuzzle.Program.Compile

/-!
# What compiling accepts

Compiling a statement succeeds exactly when the checks of its own number and name succeed, its
blocks compile and the charge fits. From this follows what the meter shows after compiling: the
steps charged are those of the commands, counted up to the limit of the counter.

## Main definitions

* `Action.Legal` — a number of cells that a program may ask for
* `action?` — the action that a call denotes
* `Command.Canonical`, `CanonicalAll` — commands that compiling may give
* `Metered` — what compiling promises about its commands and its meter

## Main results

* `compileCall_eq_ok_iff`, `compile_loop_eq_ok_iff`, `compile_branch_eq_ok_iff`,
  `compileBlock_cons_eq_ok_iff` — when statements compile, and to what
* `metered_of_compileBlock` — what compiling promises
-/

namespace RobotPuzzle

/-! ### The counter -/

section Counter

variable {u a b n : Nat}

/-- Charging the rounds of a body by what its first round added comes to the same as charging
every round, whether or not the counter stops in the first one. -/
theorem saturate_rounds (hu : u ≤ counterLimit) (hn : 1 ≤ n) :
    saturate (u + saturate ((saturate (u + b) - u) * n)) = saturate (u + n * b) := by
  have hb : b ≤ n * b := Nat.le_mul_of_pos_left b hn
  by_cases hfit : u + b ≤ counterLimit
  · have hround : saturate (u + b) - u = b := by
      rw [saturate_eq_self hfit]
      omega
    rw [hround, Nat.mul_comm b n]
    unfold saturate
    omega
  · -- the counter stops in the first round, and what it shows of that round fills it alone
    have hround : saturate (u + b) - u = counterLimit - u := by
      unfold saturate
      omega
    have hfull : counterLimit - u ≤ (counterLimit - u) * n := Nat.le_mul_of_pos_right _ hn
    rw [hround]
    unfold saturate
    omega

/-- Charging the longer of two blocks by what each of them added. -/
theorem saturate_longer (hu : u ≤ counterLimit) :
    saturate (u + (max (saturate (u + a)) (saturate (u + b)) - u)) = saturate (u + max a b) := by
  unfold saturate
  omega

end Counter

/-! ### When statements compile -/

theorem bind_eq_ok_iff {ε α β : Type} {x : Except ε α} {f : α → Except ε β} {b : β} :
    (x >>= f) = .ok b ↔ ∃ a, x = .ok a ∧ f a = .ok b := by
  cases x with
  | error e => simp [bind, Except.bind]
  | ok a => simp [bind, Except.bind]

theorem Meter.charge_eq_ok_iff {m m' : Meter} {steps : Nat} :
    m.charge steps = .ok m' ↔
      saturate (m.used + steps) ≤ m.budget ∧ m' = { m with used := saturate (m.used + steps) } := by
  simp only [Meter.charge]
  split
  · next h => simp [Nat.not_le.mpr h]
  · next h => simp [Nat.le_of_not_lt h, eq_comm]

theorem positive_eq_ok_iff {digits fragment : String} {line n : Nat} :
    positive digits fragment line = .ok n ↔
      FitsWord (denoted digits) ∧ 1 ≤ denoted digits ∧ n = saturate (denoted digits).toNat := by
  simp only [positive]
  split
  · next h => simp [h]
  · next h =>
    split
    · next hlt => simp [Int.not_le.mpr hlt]
    · next hge => simp [Decidable.not_not.mp h, Int.not_lt.mp hge, eq_comm]

theorem checkAtMost_eq_ok_iff {n : Nat} {fragment : String} {line : Nat} {u : Unit} :
    checkAtMost n fragment line = .ok u ↔ n ≤ maxArgument := by
  unfold checkAtMost
  split
  · next h => simp [Nat.not_le.mpr h]
  · next h => simp [Nat.le_of_not_lt h]

/-- The natural number that a written number denotes, where negative ones count as none. -/
def countOf (digits : String) : Nat := (denoted digits).toNat

/-- A number that a program may ask for: neither nothing nor too large. -/
def LegalCount (n : Nat) : Prop := 1 ≤ n ∧ n ≤ maxArgument

/-- A number passes both of its checks exactly when the integer it denotes is allowed. -/
theorem positive_and_atMost_iff {digits fragment : String} {line n : Nat} :
    positive digits fragment line = .ok n ∧ n ≤ maxArgument ↔
      n = countOf digits ∧ LegalCount n := by
  rw [positive_eq_ok_iff]
  -- a number that a word or a counter cuts off is too large in any case
  unfold FitsWord LegalCount countOf saturate counterLimit maxArgument
  omega

/-- A move goes on for an allowed number of cells. -/
def Action.Legal : Action → Prop
  | .move _ cells => LegalCount cells
  | _ => True

/-- The action that a call denotes: a verb with the number it needs, or without one. -/
def action? (name : String) (argument : Option String) : Option Action :=
  match Verb.ofName? name, argument with
  | some (.move heading), some digits => some (.move heading (countOf digits))
  | some (.plain a), none => some a
  | _, _ => none

/-- The verbs that need no number are no moves. -/
theorem work_of_plain {name : String} {a : Action} (h : Verb.ofName? name = some (.plain a)) :
    a.Legal ∧ a.work = 1 := by
  unfold Verb.ofName? at h
  split at h <;> cases h <;> exact ⟨trivial, rfl⟩

theorem compileCall_eq_ok_iff {name text : String} {argument : Option String} {l : Location}
    {m m' : Meter} {a : Action} :
    compileCall name argument text l m = .ok (a, m') ↔
      action? name argument = some a ∧ a.Legal ∧ m.charge a.work = .ok m' := by
  unfold compileCall action?
  cases hverb : Verb.ofName? name with
  | none => simp
  | some verb =>
    cases verb with
    | move heading =>
      cases argument with
      | none => simp
      | some digits =>
        simp only [bind_eq_ok_iff, checkAtMost_eq_ok_iff, pure, Except.pure]
        constructor
        · rintro ⟨n, hpositive, meter, hcharge, _, hmost, heq⟩
          obtain ⟨rfl, hlegal⟩ := positive_and_atMost_iff.mp ⟨hpositive, hmost⟩
          cases heq
          exact ⟨rfl, hlegal, hcharge⟩
        · rintro ⟨⟨⟩, hlegal, hcharge⟩
          obtain ⟨hpositive, hmost⟩ := positive_and_atMost_iff.mpr ⟨rfl, hlegal⟩
          exact ⟨_, hpositive, m', hcharge, (), hmost, rfl⟩
    | plain action =>
      cases argument with
      | some digits => simp
      | none =>
        obtain ⟨hlegal, hwork⟩ := work_of_plain hverb
        simp only [bind_eq_ok_iff, pure, Except.pure]
        constructor
        · rintro ⟨meter, hcharge, heq⟩
          cases heq
          exact ⟨rfl, hlegal, hwork ▸ hcharge⟩
        · rintro ⟨⟨⟩, -, hcharge⟩
          exact ⟨m', hwork ▸ hcharge, rfl⟩

section Compile

variable {m m' : Meter} {cs : List Command} {body thenBlock : List Statement}

theorem compile_call_eq_ok_iff {name text : String} {argument : Option String} {l : Location} :
    (Statement.call name argument text l).compile m = .ok (cs, m') ↔
      ∃ a, action? name argument = some a ∧ a.Legal ∧ m.charge a.work = .ok m' ∧
        cs = [.act a] := by
  simp only [Statement.compile, bind_eq_ok_iff, pure, Except.pure]
  constructor
  · rintro ⟨⟨a, meter⟩, hcall, heq⟩
    obtain ⟨haction, hlegal, hcharge⟩ := compileCall_eq_ok_iff.mp hcall
    cases heq
    exact ⟨a, haction, hlegal, hcharge, rfl⟩
  · rintro ⟨a, haction, hlegal, hcharge, rfl⟩
    exact ⟨(a, m'), compileCall_eq_ok_iff.mpr ⟨haction, hlegal, hcharge⟩, rfl⟩

theorem compile_loop_eq_ok_iff {count : String} {l : Location} :
    (Statement.loop count body l).compile m = .ok (cs, m') ↔
      ∃ commands inner, compileBlock body m = .ok (commands, inner) ∧
        LegalCount (countOf count) ∧
        m.charge (saturate ((inner.used - m.used) * countOf count)) = .ok m' ∧
        cs = if inner.used - m.used = 0 then [] else [.loop (countOf count) commands] := by
  simp only [Statement.compile, bind_eq_ok_iff, checkAtMost_eq_ok_iff, pure, Except.pure]
  constructor
  · rintro ⟨n, hpositive, ⟨commands, inner⟩, hbody, meter, hcharge, _, hmost, heq⟩
    obtain ⟨rfl, hlegal⟩ := positive_and_atMost_iff.mp ⟨hpositive, hmost⟩
    cases heq
    exact ⟨commands, inner, hbody, hlegal, hcharge, rfl⟩
  · rintro ⟨commands, inner, hbody, hlegal, hcharge, rfl⟩
    obtain ⟨hpositive, hmost⟩ := positive_and_atMost_iff.mpr ⟨rfl, hlegal⟩
    exact ⟨_, hpositive, (commands, inner), hbody, m', hcharge, (), hmost, rfl⟩

theorem compile_branch_eq_ok_iff {condition : Condition} {elseBlock : Option (List Statement)} :
    (Statement.branch condition thenBlock elseBlock).compile m = .ok (cs, m') ↔
      isFireSensor condition.sensor = true ∧
      ∃ thenDo thenMeter elseDo elseMeter, compileBlock thenBlock m = .ok (thenDo, thenMeter) ∧
        compileElse elseBlock m = .ok (elseDo, elseMeter) ∧
        m.charge (max thenMeter.used elseMeter.used - m.used) = .ok m' ∧
        cs = if max thenMeter.used elseMeter.used - m.used = 0 then []
          else [.branch condition.negated thenDo elseDo] := by
  simp only [Statement.compile]
  split
  · next hsensor =>
    simp only [hsensor, true_and, bind_eq_ok_iff, pure, Except.pure]
    constructor
    · rintro ⟨⟨thenDo, thenMeter⟩, hthen, ⟨elseDo, elseMeter⟩, helse, meter, hcharge, heq⟩
      cases heq
      exact ⟨thenDo, thenMeter, elseDo, elseMeter, hthen, helse, hcharge, rfl⟩
    · rintro ⟨thenDo, thenMeter, elseDo, elseMeter, hthen, helse, hcharge, rfl⟩
      exact ⟨(thenDo, thenMeter), hthen, (elseDo, elseMeter), helse, m', hcharge, rfl⟩
  · next hsensor => simp [hsensor]

theorem compileBlock_cons_eq_ok_iff {s : Statement} {ss : List Statement} :
    compileBlock (s :: ss) m = .ok (cs, m') ↔
      ∃ first next rest, s.compile m = .ok (first, next) ∧
        compileBlock ss next = .ok (rest, m') ∧ cs = first ++ rest := by
  simp only [compileBlock, bind_eq_ok_iff, pure, Except.pure]
  constructor
  · rintro ⟨⟨first, next⟩, hfirst, ⟨rest, last⟩, hrest, heq⟩
    cases heq
    exact ⟨first, next, rest, hfirst, hrest, rfl⟩
  · rintro ⟨first, next, rest, hfirst, hrest, rfl⟩
    exact ⟨(first, next), hfirst, (rest, m'), hrest, rfl⟩

end Compile

/-! ### What compiling promises -/

mutual

/-- A command as compiling gives it: its numbers are allowed, and its blocks take steps. -/
def Command.Canonical : Command → Prop
  | .act a => a.Legal
  | .loop count body => LegalCount count ∧ 0 < workOf body ∧ CanonicalAll body
  | .branch _ thenDo elseDo =>
    0 < max (workOf thenDo) (workOf elseDo) ∧ CanonicalAll thenDo ∧ CanonicalAll elseDo

/-- Commands as compiling gives them. -/
def CanonicalAll : List Command → Prop
  | [] => True
  | c :: cs => c.Canonical ∧ CanonicalAll cs

end

theorem canonicalAll_append {cs ds : List Command} :
    CanonicalAll (cs ++ ds) ↔ CanonicalAll cs ∧ CanonicalAll ds := by
  induction cs with
  | nil => simp [CanonicalAll]
  | cons c cs ih => simp [CanonicalAll, ih, and_assoc]

theorem workOf_singleton (c : Command) : workOf [c] = c.work := by
  simp [workOf]

theorem canonicalAll_singleton {c : Command} : CanonicalAll [c] ↔ c.Canonical := by
  simp [CanonicalAll]

/-- No command that compiling gives costs nothing. -/
theorem Command.Canonical.work_pos {c : Command} (h : c.Canonical) : 0 < c.work := by
  cases c with
  | act a =>
    cases a with
    | move heading cells => exact h.1
    | _ => exact Nat.one_pos
  | loop count body => exact Nat.mul_pos h.1.1 h.2.1
  | branch negated thenDo elseDo => exact h.1

theorem eq_nil_of_workOf_eq_zero {cs : List Command} (h : CanonicalAll cs) (hwork : workOf cs = 0) :
    cs = [] := by
  cases cs with
  | nil => rfl
  | cons c cs =>
    have hpos := h.1.work_pos
    simp only [workOf] at hwork
    omega

/-- What compiling promises of its commands and of the meter it leaves. -/
structure Metered (m : Meter) (cs : List Command) (m' : Meter) : Prop where
  budget : m'.budget = m.budget
  used : m'.used = saturate (m.used + workOf cs)
  within : m.used ≤ m.budget → m'.used ≤ m'.budget
  canonical : CanonicalAll cs

namespace Metered

variable {m m' m'' : Meter} {cs ds : List Command}

theorem nil (hm : m.used ≤ counterLimit) : Metered m [] m where
  budget := rfl
  used := (saturate_eq_self hm).symm
  within := id
  canonical := trivial

/-- A charge for the work of some commands. -/
theorem of_charge {steps : Nat} (hcharge : m.charge steps = .ok m')
    (hsteps : saturate (m.used + steps) = saturate (m.used + workOf cs)) (hcs : CanonicalAll cs) :
    Metered m cs m' := by
  obtain ⟨hwithin, rfl⟩ := Meter.charge_eq_ok_iff.mp hcharge
  exact ⟨rfl, hsteps, fun _ => hwithin, hcs⟩

theorem used_le (h : Metered m cs m') : m'.used ≤ counterLimit := by
  rw [h.used]
  exact saturate_le _

theorem append (h : Metered m cs m') (h' : Metered m' ds m'') : Metered m (cs ++ ds) m'' where
  budget := h'.budget.trans h.budget
  used := by rw [h'.used, h.used, saturate_saturate_add, workOf_append]
  within := fun hm => h'.within (h.within hm)
  canonical := canonicalAll_append.mpr ⟨h.canonical, h'.canonical⟩

/-- A block that moved the meter takes steps. -/
theorem work_pos (h : Metered m cs m') (hm : m.used ≤ counterLimit)
    (hmoved : m'.used - m.used ≠ 0) : 0 < workOf cs := by
  refine Nat.pos_of_ne_zero fun hzero => hmoved ?_
  rw [h.used, hzero, Nat.add_zero, saturate_eq_self hm, Nat.sub_self]

theorem loop {n : Nat} {inner : Meter} (hm : m.used ≤ counterLimit) (hbody : Metered m cs inner)
    (hn : LegalCount n) (hcharge : m.charge (saturate ((inner.used - m.used) * n)) = .ok m') :
    Metered m (if inner.used - m.used = 0 then [] else [.loop n cs]) m' := by
  have hrounds := saturate_rounds (b := workOf cs) hm hn.1
  rw [← hbody.used] at hrounds
  refine of_charge hcharge ?_ ?_
  · split
    · next hzero => simp [hzero, saturate, workOf]
    · rw [hrounds, workOf_singleton, Command.work]
  · split
    · trivial
    · next hmoved =>
      exact canonicalAll_singleton.mpr ⟨hn, hbody.work_pos hm hmoved, hbody.canonical⟩

theorem branch {negated : Bool} {thenMeter elseMeter : Meter} (hm : m.used ≤ counterLimit)
    (hthen : Metered m cs thenMeter) (helse : Metered m ds elseMeter)
    (hcharge : m.charge (max thenMeter.used elseMeter.used - m.used) = .ok m') :
    Metered m (if max thenMeter.used elseMeter.used - m.used = 0 then []
      else [.branch negated cs ds]) m' := by
  have hlonger := saturate_longer (a := workOf cs) (b := workOf ds) hm
  rw [← hthen.used, ← helse.used] at hlonger
  refine of_charge hcharge ?_ ?_
  · split
    · next hzero => simp [hzero, workOf]
    · rw [hlonger, workOf_singleton, Command.work]
  · split
    · trivial
    · next hmoved =>
      -- had neither block anything to do, neither meter would have moved
      refine canonicalAll_singleton.mpr ⟨?_, hthen.canonical, helse.canonical⟩
      refine Nat.pos_of_ne_zero fun hzero => hmoved ?_
      rw [hthen.used, helse.used]
      unfold saturate
      omega

end Metered

mutual

theorem metered_of_compile (s : Statement) {m m' : Meter} {cs : List Command}
    (hm : m.used ≤ counterLimit) (h : s.compile m = .ok (cs, m')) : Metered m cs m' := by
  cases s with
  | call name argument text l =>
    obtain ⟨a, -, hlegal, hcharge, rfl⟩ := compile_call_eq_ok_iff.mp h
    refine .of_charge hcharge ?_ (canonicalAll_singleton.mpr hlegal)
    rw [workOf_singleton, Command.work]
  | loop count body l =>
    obtain ⟨commands, inner, hbody, hlegal, hcharge, rfl⟩ := compile_loop_eq_ok_iff.mp h
    exact .loop hm (metered_of_compileBlock body hm hbody) hlegal hcharge
  | branch condition thenBlock elseBlock =>
    obtain ⟨-, thenDo, thenMeter, elseDo, elseMeter, hthen, helse, hcharge, rfl⟩ :=
      compile_branch_eq_ok_iff.mp h
    exact .branch hm (metered_of_compileBlock thenBlock hm hthen)
      (metered_of_compileElse elseBlock hm helse) hcharge

theorem metered_of_compileElse (block? : Option (List Statement)) {m m' : Meter}
    {cs : List Command} (hm : m.used ≤ counterLimit) (h : compileElse block? m = .ok (cs, m')) :
    Metered m cs m' := by
  cases block? with
  | none =>
    cases h
    exact .nil hm
  | some block => exact metered_of_compileBlock block hm h

/-- Compiling keeps what it promises. -/
theorem metered_of_compileBlock (ss : List Statement) {m m' : Meter} {cs : List Command}
    (hm : m.used ≤ counterLimit) (h : compileBlock ss m = .ok (cs, m')) : Metered m cs m' := by
  cases ss with
  | nil =>
    cases h
    exact .nil hm
  | cons s ss =>
    obtain ⟨first, next, rest, hfirst, hrest, rfl⟩ := compileBlock_cons_eq_ok_iff.mp h
    have hmetered := metered_of_compile s hm hfirst
    exact hmetered.append (metered_of_compileBlock ss hmetered.used_le hrest)

end

theorem compile_eq_ok_iff {ss : List Statement} {budget : Nat} {cs : List Command} :
    compile ss budget = .ok cs ↔
      ∃ m, compileBlock ss { used := 0, budget } = .ok (cs, m) := by
  simp only [compile, bind_eq_ok_iff, pure, Except.pure]
  constructor
  · rintro ⟨⟨commands, m⟩, hblock, heq⟩
    cases heq
    exact ⟨m, hblock⟩
  · rintro ⟨m, hblock⟩
    exact ⟨(cs, m), hblock, rfl⟩

/-- The commands of an accepted program are as compiling gives them, and their declared cost is
within the budget. -/
theorem costOf_le_of_compile {ss : List Statement} {budget : Nat} {cs : List Command}
    (h : compile ss budget = .ok cs) : CanonicalAll cs ∧ costOf cs ≤ budget := by
  obtain ⟨m, hblock⟩ := compile_eq_ok_iff.mp h
  have hmetered := metered_of_compileBlock ss (Nat.zero_le _) hblock
  have hwithin := hmetered.within (Nat.zero_le _)
  rw [hmetered.used, hmetered.budget, Nat.zero_add, ← costOf_eq] at hwithin
  exact ⟨hmetered.canonical, hwithin⟩

theorem parse_eq_ok_iff {source : String} {budget : Nat} {cs : List Command} :
    parse source budget = .ok cs ↔
      ∃ ss, parseStatements source = .ok ss ∧ compile ss budget = .ok cs := by
  simp only [parse, bind_eq_ok_iff]

end RobotPuzzle
