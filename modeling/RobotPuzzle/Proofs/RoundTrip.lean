import Mathlib.Data.List.Basic
import RobotPuzzle.Proofs.Acceptance
import RobotPuzzle.Proofs.Reading

/-!
# Reading back programs

What parsing gives can be told without naming the text: allowed numbers at every depth, blocks
that cost something, and a cost within the budget. In the other direction, the text of such
commands is accepted. It is read back as the commands themselves unless the meter fills up on
the way, which takes a budget that is as large as the counter goes.

## Main definitions

* `Command.Throughout`, `ThroughoutAll` — a property of commands at every depth
* `Admissible` — what a list of commands must be to come out of parsing
* `Command.kept`, `keptOf` — what compiling keeps of commands, given how full the meter is

## Main results

* `keptOf_of_compileBlock` — what is said and compiled is what is kept
* `parse_of_layout` — every layout of the tokens of commands is parsed to what is kept of them
* `parse_textOf_iff_below_limit` — the budgets under which parsing undoes writing
-/

namespace RobotPuzzle

/-! ### What parsing gives -/

mutual

/-- The command and every command in its blocks have the property. -/
def Command.Throughout (p : Command → Prop) : Command → Prop
  | .act a => p (.act a)
  | .loop count body => p (.loop count body) ∧ ThroughoutAll p body
  | .branch negated thenDo elseDo =>
    p (.branch negated thenDo elseDo) ∧ ThroughoutAll p thenDo ∧ ThroughoutAll p elseDo

/-- The same for the commands of a list. -/
def ThroughoutAll (p : Command → Prop) : List Command → Prop
  | [] => True
  | c :: cs => c.Throughout p ∧ ThroughoutAll p cs

end

/-- The number in a command, if it has one, is allowed. -/
def Command.NumberLegal : Command → Prop
  | .act a => a.Legal
  | .loop count _ => LegalCount count
  | .branch .. => True

/-- A command with blocks costs something. -/
def Command.BlocksCost (c : Command) : Prop := c.isPrimitive = false → c.cost ≠ 0

/-- Commands that a program may come to under a budget. -/
structure Admissible (budget : Nat) (cs : List Command) : Prop where
  numbers : ThroughoutAll Command.NumberLegal cs
  blocks : ThroughoutAll Command.BlocksCost cs
  within : costOf cs ≤ budget

theorem Command.cost_ne_zero_iff (c : Command) : c.cost ≠ 0 ↔ 0 < c.work := by
  rw [c.cost_eq]
  unfold saturate counterLimit
  omega

mutual

theorem Command.canonical_iff (c : Command) :
    c.Canonical ↔ c.Throughout Command.NumberLegal ∧ c.Throughout Command.BlocksCost := by
  cases c with
  | act a =>
    have hblocks : (Command.act a).BlocksCost := nofun
    exact ⟨fun h => ⟨h, hblocks⟩, fun h => h.1⟩
  | loop count body =>
    have hbody := canonicalAll_iff body
    have hcost := Command.cost_ne_zero_iff (.loop count body)
    constructor
    · rintro ⟨hcount, hpos, hcanonical⟩
      obtain ⟨hnumbers, hblocks⟩ := hbody.mp hcanonical
      exact ⟨⟨hcount, hnumbers⟩, fun _ => hcost.mpr (Nat.mul_pos hcount.1 hpos), hblocks⟩
    · rintro ⟨⟨hcount, hnumbers⟩, hloop, hblocks⟩
      have hpos : 0 < workOf body := Nat.pos_of_mul_pos_left (hcost.mp (hloop rfl))
      exact ⟨hcount, hpos, hbody.mpr ⟨hnumbers, hblocks⟩⟩
  | branch negated thenDo elseDo =>
    have hthen := canonicalAll_iff thenDo
    have helse := canonicalAll_iff elseDo
    have hcost := Command.cost_ne_zero_iff (.branch negated thenDo elseDo)
    constructor
    · rintro ⟨hpos, hthenDo, helseDo⟩
      obtain ⟨hthenNumbers, hthenBlocks⟩ := hthen.mp hthenDo
      obtain ⟨helseNumbers, helseBlocks⟩ := helse.mp helseDo
      exact ⟨⟨trivial, hthenNumbers, helseNumbers⟩, fun _ => hcost.mpr hpos, hthenBlocks,
        helseBlocks⟩
    · rintro ⟨⟨-, hthenNumbers, helseNumbers⟩, hbranch, hthenBlocks, helseBlocks⟩
      exact ⟨hcost.mp (hbranch rfl), hthen.mpr ⟨hthenNumbers, hthenBlocks⟩,
        helse.mpr ⟨helseNumbers, helseBlocks⟩⟩

/-- Being as compiling gives them is a property of the single commands at every depth. -/
theorem canonicalAll_iff (cs : List Command) :
    CanonicalAll cs ↔
      ThroughoutAll Command.NumberLegal cs ∧ ThroughoutAll Command.BlocksCost cs := by
  cases cs with
  | nil => exact ⟨fun _ => ⟨trivial, trivial⟩, fun _ => trivial⟩
  | cons c cs =>
    rw [CanonicalAll, ThroughoutAll, ThroughoutAll, Command.canonical_iff c, canonicalAll_iff cs]
    exact and_and_and_comm

end

theorem admissible_iff {budget : Nat} {cs : List Command} :
    Admissible budget cs ↔ CanonicalAll cs ∧ costOf cs ≤ budget := by
  rw [canonicalAll_iff]
  exact ⟨fun h => ⟨⟨h.numbers, h.blocks⟩, h.within⟩, fun h => ⟨h.1.1, h.1.2, h.2⟩⟩

theorem admissible_of_parse {source : String} {budget : Nat} {cs : List Command}
    (h : parse source budget = .ok cs) : Admissible budget cs := by
  obtain ⟨ss, -, hcompile⟩ := parse_eq_ok_iff.mp h
  exact admissible_iff.mpr (costOf_le_of_compile hcompile)

/-! ### What is said is as long and as legal -/

mutual

theorem Statement.Says.work_eq {s : Statement} {c : Command} (h : s.Says c) : s.work = c.work := by
  cases h with
  | call haction => rw [Statement.work, haction, Command.work, Option.map_some, Option.getD_some]
  | loop hcount hbody => rw [Statement.work, Command.work, hcount, hbody.work_eq]
  | branch hsensor hnegated hthen helse =>
    rw [Statement.work, Command.work, workOfElse, hthen.work_eq, helse.work_eq]

theorem SayAll.work_eq {ss : List Statement} {cs : List Command} (h : SayAll ss cs) :
    workOfBlock ss = workOf cs := by
  cases h with
  | nil => rfl
  | cons hs hss => rw [workOfBlock, workOf, hs.work_eq, hss.work_eq]

end

mutual

theorem Statement.Says.legal {s : Statement} {c : Command} (h : s.Says c) (hc : c.Canonical) :
    s.Legal := by
  cases h with
  | call haction => exact legal_call_iff.mpr ⟨_, haction, hc⟩
  | loop hcount hbody =>
    exact ⟨legalCount_countOf_iff.mp (hcount ▸ hc.1), hbody.legal hc.2.2⟩
  | branch hsensor hnegated hthen helse =>
    exact ⟨hsensor, hthen.legal hc.2.1, helse.legal hc.2.2⟩

theorem SayAll.legal {ss : List Statement} {cs : List Command} (h : SayAll ss cs)
    (hcs : CanonicalAll cs) : BlockLegal ss := by
  cases h with
  | nil => trivial
  | cons hs hss => exact ⟨hs.legal hcs.1, hss.legal hcs.2⟩

end

/-! ### What compiling keeps -/

mutual

/-- What is kept of a command that begins after `u` steps: a loop or a branch is left out if the
meter is full by then. -/
def Command.kept (u : Nat) : Command → List Command
  | .act a => [.act a]
  | .loop count body => if u < counterLimit then [.loop count (keptOf u body)] else []
  | .branch negated thenDo elseDo =>
    if u < counterLimit then [.branch negated (keptOf u thenDo) (keptOf u elseDo)] else []

/-- What is kept of commands that begin after `u` steps. -/
def keptOf (u : Nat) : List Command → List Command
  | [] => []
  | c :: cs => c.kept u ++ keptOf (u + c.work) cs

end

/-- Some work moves the meter exactly if it is not full. -/
theorem unmoved_iff {u work : Nat} (hwork : 0 < work) :
    saturate (saturate u + work) - saturate u = 0 ↔ ¬ u < counterLimit := by
  unfold saturate
  omega

theorem used_after {u work : Nat} {m : Meter} (hused : m.used = saturate u) :
    (m.after work).used = saturate (u + work) := by
  rw [Meter.after, hused, Nat.add_comm, saturate_add_saturate, Nat.add_comm]

mutual

theorem kept_of_compile {s : Statement} {c : Command} (h : s.Says c) (hc : c.Canonical) {u : Nat}
    {m m' : Meter} {ds : List Command} (hm : m.Within) (hused : m.used = saturate u)
    (hcompile : s.compile m = .ok (ds, m')) : ds = c.kept u := by
  cases h with
  | call haction =>
    obtain ⟨a, haction', -, -, rfl⟩ := compile_call_eq_ok_iff.mp hcompile
    obtain rfl := Option.some.inj (haction.symm.trans haction')
    rfl
  | loop hcount hbody =>
    obtain ⟨commands, inner, hblock, -, -, rfl⟩ := compile_loop_eq_ok_iff.mp hcompile
    obtain ⟨-, -, rfl⟩ := (exists_compileBlock_iff _ hm).mp ⟨commands, hblock⟩
    have hkept := keptOf_of_compileBlock hbody hc.2.2 hm hused hblock
    -- the copy of the meter has counted one round, which is some work
    have hunmoved := unmoved_iff (u := u) hc.2.1
    rw [Command.kept, Meter.after, hused, hbody.work_eq, hcount, hkept]
    simp only [hunmoved, ite_not]
  | branch hsensor hnegated hthen helse =>
    obtain ⟨-, thenDo, thenMeter, elseDo, elseMeter, hthenBlock, helseBlock, -, rfl⟩ :=
      compile_branch_eq_ok_iff.mp hcompile
    obtain ⟨-, -, rfl⟩ := (exists_compileBlock_iff _ hm).mp ⟨thenDo, hthenBlock⟩
    obtain ⟨-, -, rfl⟩ := (exists_compileBlock_iff _ hm).mp ⟨elseDo, helseBlock⟩
    have hthenKept := keptOf_of_compileBlock hthen hc.2.1 hm hused hthenBlock
    have helseKept := keptOf_of_compileBlock helse hc.2.2 hm hused helseBlock
    have hunmoved := unmoved_iff (u := u) hc.1
    rw [Command.kept, Meter.after, Meter.after, hused, hthen.work_eq, helse.work_eq,
      saturate_max, Nat.add_max_add_left, hnegated, hthenKept, helseKept]
    simp only [hunmoved, ite_not]

/-- Compiling what says some commands gives what is kept of them. -/
theorem keptOf_of_compileBlock {ss : List Statement} {cs : List Command} (h : SayAll ss cs)
    (hcs : CanonicalAll cs) {u : Nat} {m m' : Meter} {ds : List Command} (hm : m.Within)
    (hused : m.used = saturate u) (hcompile : compileBlock ss m = .ok (ds, m')) :
    ds = keptOf u cs := by
  cases h with
  | nil =>
    cases hcompile
    rfl
  | cons hs hss =>
    obtain ⟨first, next, rest, hfirst, hrest, rfl⟩ := compileBlock_cons_eq_ok_iff.mp hcompile
    obtain ⟨-, hafford, rfl⟩ := (exists_compile_iff _ hm).mp ⟨first, hfirst⟩
    rw [hs.work_eq] at hafford hrest
    rw [keptOf, kept_of_compile hs hcs.1 hm hused hfirst,
      keptOf_of_compileBlock hss hcs.2 hafford.within (used_after hused) hrest]

end

mutual

theorem kept_eq_self {c : Command} {u : Nat} (hc : c.Canonical)
    (hu : u + c.work ≤ counterLimit) : c.kept u = [c] := by
  have hroom : u < counterLimit := by
    have hpos := hc.work_pos
    omega
  cases c with
  | act a => rfl
  | loop count body =>
    -- the first round ends no later than the last one
    have hround : workOf body ≤ count * workOf body := Nat.le_mul_of_pos_left _ hc.1.1
    have hbody : u + workOf body ≤ counterLimit :=
      Nat.le_trans (Nat.add_le_add_left hround u) hu
    rw [Command.kept, if_pos hroom, keptOf_eq_self hc.2.2 hbody]
  | branch negated thenDo elseDo =>
    have hthen : u + workOf thenDo ≤ counterLimit :=
      Nat.le_trans (Nat.add_le_add_left (Nat.le_max_left _ _) u) hu
    have helse : u + workOf elseDo ≤ counterLimit :=
      Nat.le_trans (Nat.add_le_add_left (Nat.le_max_right _ _) u) hu
    rw [Command.kept, if_pos hroom, keptOf_eq_self hc.2.1 hthen, keptOf_eq_self hc.2.2 helse]

/-- Commands whose work the counter can tell are kept as they are. -/
theorem keptOf_eq_self {cs : List Command} {u : Nat} (hcs : CanonicalAll cs)
    (hu : u + workOf cs ≤ counterLimit) : keptOf u cs = cs := by
  cases cs with
  | nil => rfl
  | cons c cs =>
    rw [workOf, ← Nat.add_assoc] at hu
    have hfirst : u + c.work ≤ counterLimit := Nat.le_trans (Nat.le_add_right _ _) hu
    rw [keptOf, kept_eq_self hcs.1 hfirst, keptOf_eq_self hcs.2 hu, List.singleton_append]

end

/-! ### Parsing what was written -/

section Parse

variable {budget : Nat} {cs : List Command}

/-- However commands that a program may come to are laid out, the text is accepted, and it is
parsed to what is kept of them. -/
theorem parse_of_layout {source : String} (h : Admissible budget cs)
    (hlayout : Layout (tokensOf cs) source.toList) :
    parse source budget = .ok (keptOf 0 cs) := by
  obtain ⟨hcanonical, hcost⟩ := admissible_iff.mp h
  obtain ⟨ss, hss, hsay⟩ := parseStatements_of_layout hlayout
  have hm : ({ used := 0, budget } : Meter).Within := ⟨Nat.zero_le _, Nat.zero_le _⟩
  have haffords : ({ used := 0, budget } : Meter).Affords (workOfBlock ss) := by
    rwa [Meter.Affords, Nat.zero_add, hsay.work_eq, ← costOf_eq]
  obtain ⟨ds, hblock⟩ := (exists_compileBlock_iff ss hm).mpr
    ⟨hsay.legal hcanonical, haffords, rfl⟩
  have hzero : ({ used := 0, budget } : Meter).used = saturate 0 := rfl
  obtain rfl := keptOf_of_compileBlock hsay hcanonical hm hzero hblock
  exact parse_eq_ok_iff.mpr ⟨ss, hss, compile_eq_ok_iff.mpr ⟨_, hblock⟩⟩

theorem keptOf_eq_self_of_admissible (h : Admissible budget cs) (hwork : workOf cs ≤ counterLimit) :
    keptOf 0 cs = cs := by
  refine keptOf_eq_self (admissible_iff.mp h).1 ?_
  rwa [Nat.zero_add]

/-- A budget below the limit only admits commands whose work the counter can tell. -/
theorem workOf_le_of_admissible (h : Admissible budget cs) (hbudget : budget < counterLimit) :
    workOf cs ≤ counterLimit := by
  have hcost := h.within
  rw [costOf_eq] at hcost
  unfold saturate at hcost
  omega

/-- The commands of the overfull program with nothing left out. -/
def overfullCommands : List Command :=
  [.branch false (overfullLoops 5) [], .loop 1 [.act .collect]]

theorem canonicalAll_overfullLoops (n : Nat) : CanonicalAll (overfullLoops n) := by
  have hfifty : LegalCount 50 := ⟨by decide, by decide⟩
  induction n with
  | zero => exact ⟨hfifty, trivial⟩
  | succ n ih =>
    have hpos : 0 < workOf (overfullLoops n) := by
      refine Nat.pos_of_ne_zero fun hzero => ?_
      have hnil := eq_nil_of_workOf_eq_zero ih hzero
      cases n <;> cases hnil
    exact ⟨⟨hfifty, hpos, ih⟩, trivial⟩

theorem admissible_overfullCommands (hbudget : counterLimit ≤ budget) :
    Admissible budget overfullCommands := by
  refine admissible_iff.mpr ⟨⟨⟨?_, canonicalAll_overfullLoops 5, trivial⟩, ?_, trivial⟩, ?_⟩
  · decide +kernel
  · exact ⟨⟨by decide, by decide⟩, by decide, trivial, trivial⟩
  · rw [costOf_eq]
    exact Nat.le_trans (saturate_le _) hbudget

/-- A budget that is as large as the counter goes admits commands that are not read back. -/
theorem exists_parse_textOf_ne (hbudget : counterLimit ≤ budget) :
    ∃ cs, Admissible budget cs ∧ parse (textOf cs) budget ≠ .ok cs := by
  have hadmissible := admissible_overfullCommands hbudget
  refine ⟨overfullCommands, hadmissible, fun hparse => ?_⟩
  rw [parse_of_layout hadmissible (layout_tokensOf _)] at hparse
  have hkept : keptOf 0 overfullCommands ≠ overfullCommands := by decide +kernel
  exact hkept (Except.ok.inj hparse)

end Parse

/-- What parsing gives is admissible. In the other direction, every layout of admissible commands
is accepted; it is parsed to what is kept of them, which is all if the counter can tell their
work. So parsing undoes writing under just the budgets below the limit of the counter. -/
theorem parse_textOf_iff_below_limit (budget : Nat) :
    (∀ source cs, parse source budget = .ok cs → Admissible budget cs) ∧
      (∀ cs source, Admissible budget cs → Layout (tokensOf cs) source.toList →
        parse source budget = .ok (keptOf 0 cs) ∧
          (workOf cs ≤ counterLimit → keptOf 0 cs = cs)) ∧
      ((∀ cs, Admissible budget cs → parse (textOf cs) budget = .ok cs) ↔
        budget < counterLimit) := by
  refine ⟨fun source cs => admissible_of_parse, fun cs source h hlayout => ?_, ?_, ?_⟩
  · exact ⟨parse_of_layout h hlayout, keptOf_eq_self_of_admissible h⟩
  · intro hall
    refine Nat.lt_of_not_le fun hbudget => ?_
    obtain ⟨cs, hadmissible, hne⟩ := exists_parse_textOf_ne hbudget
    exact hne (hall cs hadmissible)
  · intro hbudget cs h
    have hkept := keptOf_eq_self_of_admissible h (workOf_le_of_admissible h hbudget)
    rw [parse_of_layout h (layout_tokensOf cs), hkept]

/-- Written out, a program of seven steps loses its aliases and parentheses and is read back. -/
theorem parse_textOf_iff_below_limit_seven_steps :
    let cs : List Command := [.loop 2 [.act (.move .forward 3)], .branch true [.act .collect] []]
    parse "repeat 2 { moveForward 03 } if !isOnFire() { collect }" 7 = .ok cs ∧ Admissible 7 cs ∧
      Layout (tokensOf cs) (textOf cs).toList ∧ parse (textOf cs) 7 = .ok (keptOf 0 cs) ∧
      workOf cs ≤ counterLimit ∧ keptOf 0 cs = cs ∧ 7 < counterLimit ∧
      parse (textOf cs) 7 = .ok cs := by
  intro cs
  obtain ⟨hadmissible, hlayouts, hundoes⟩ := parse_textOf_iff_below_limit 7
  have hparse : parse "repeat 2 { moveForward 03 } if !isOnFire() { collect }" 7 = .ok cs := by
    decide +kernel
  have hcs := hadmissible _ cs hparse
  have hlayout := layout_tokensOf cs
  have hwork : workOf cs ≤ counterLimit := by decide
  have hlimit : 7 < counterLimit := by decide
  obtain ⟨hkeeps, hself⟩ := hlayouts cs _ hcs hlayout
  exact ⟨hparse, hcs, hlayout, hkeeps, hwork, hself hwork, hlimit, hundoes.mpr hlimit cs hcs⟩

/-- Under the largest budget parsing does not undo writing. -/
theorem not_parse_textOf_at_limit :
    ¬ ∀ budget, budget ≤ counterLimit →
      (∀ source cs, parse source budget = .ok cs → Admissible budget cs) ∧
        ∀ cs, Admissible budget cs → parse (textOf cs) budget = .ok cs := by
  intro hall
  obtain ⟨cs, hadmissible, hne⟩ := exists_parse_textOf_ne (Nat.le_refl counterLimit)
  exact hne ((hall counterLimit (Nat.le_refl _)).2 cs hadmissible)

end RobotPuzzle
