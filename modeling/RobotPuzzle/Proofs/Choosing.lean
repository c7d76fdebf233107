import RobotPuzzle.Proofs.Phrases

/-!
# What choices do

A choice goes through its questions from the first one on and carries out the block of the first
one that holds in the world in which the choice is reached, or its last block if none of them does.
A program means what its phrases say in this way, and below the limit of the counter its commands do
what it means. A choice between two blocks may also be turned around: the negated question with the
blocks exchanged comes to the same.

## Main definitions

* `Question.holds` — a question as a proposition about whether the robot stands in a fire
* `Choice.arms`, `Choice.last`, `Choice.chosen` — the block that a choice carries out
* `Phrase.course`, `coursesOf` — the course of phrases
* `Phrase.Turned`, `TurnedAll` — phrases in which some choices are turned around

## Main results

* `Question.holds_eq` — only the parity of the negations matters
* `Choice.course_eq` — a choice carries out the block that it chooses
* `courseOfBlock_statementsOf` — the syntax tree means what the phrases say
* `TurnedAll.matched` — choices that are turned around compile to the same meter and course
* `choices_choose_first_true` — the phrases of a program decide what its runs do
-/

namespace RobotPuzzle

open Course

/-! ### Questions -/

namespace Question

/-- Whether the answer to a question is yes, if the robot stands in an active fire or not. -/
def holds (burning : Bool) : Question → Bool
  | sensor .. => burning
  | negation q => !q.holds burning
  | grouping q => q.holds burning

theorem holds_eq (burning : Bool) (q : Question) : q.holds burning = (burning != q.odd) := by
  induction q with
  | sensor name called => exact (bne_odd_sensor burning name called).symm
  | negation q ih =>
    rw [holds, ih, odd_negation]
    cases burning <;> cases q.odd <;> rfl
  | grouping q ih => exact ih

end Question

/-! ### Choices -/

namespace Choice

/-- The questions of a choice with their blocks. -/
def arms : Choice → List (Question × List Phrase)
  | only q block | orElse q block _ => [(q, block)]
  | orIf q block next => (q, block) :: next.arms

/-- The block of a choice for which no question is asked, empty if there is none. -/
def last : Choice → List Phrase
  | only .. => []
  | orElse _ _ last => last
  | orIf _ _ next => next.last

/-- The block of the first question that holds, or else the last block. -/
def chosen (c : Choice) (burning : Bool) : List Phrase :=
  ((c.arms.find? fun arm => arm.1.holds burning).map Prod.snd).getD c.last

end Choice

mutual

/-- The course of a phrase. The questions of a choice are asked in the world in which the choice is
reached. -/
def Phrase.course : Phrase → World → Course
  | .call name argument =>
    match action? name argument.number? with
    | some a => a.course
    | none => fun _ => .done
  | .loop _ count body => times (coursesOf body) (countOf count)
  | .choice c => c.course
  | .ended p => p.course

/-- The course of a choice, one question after the other. -/
def Choice.course : Choice → World → Course
  | .only q block => fun w => if q.holds w.onFire then coursesOf block w else .done
  | .orElse q block last => fun w =>
    if q.holds w.onFire then coursesOf block w else coursesOf last w
  | .orIf q block next => fun w => if q.holds w.onFire then coursesOf block w else next.course w

/-- The course of phrases carried out from left to right. -/
def coursesOf : List Phrase → World → Course
  | [] => fun _ => .done
  | p :: ps => fun w => (p.course w).andThen w (coursesOf ps)

end

/-- A choice carries out the block that it chooses. -/
theorem Choice.course_eq (c : Choice) (w : World) :
    c.course w = coursesOf (c.chosen w.onFire) w := by
  cases c with
  | only q block | orElse q block last =>
    simp only [Choice.course, chosen, arms, Choice.last, List.find?_singleton]
    cases q.holds w.onFire <;> rfl
  | orIf q block next =>
    simp only [Choice.course, Choice.course_eq next w, chosen, arms, Choice.last, List.find?_cons]
    cases q.holds w.onFire <;> rfl

mutual

theorem Phrase.course_statement (p : Phrase) : p.statement.course = p.course := by
  cases p with
  | call name argument => rfl
  | loop grouped count body =>
    rw [Phrase.statement, Statement.course, Phrase.course, courseOfBlock_statementsOf body]
  | choice c => rw [Phrase.statement, Phrase.course, Choice.course_statement c]
  | ended p => rw [Phrase.statement, Phrase.course, Phrase.course_statement p]

theorem Choice.course_statement (c : Choice) : c.statement.course = c.course := by
  funext w
  cases c with
  | only q block =>
    simp only [Choice.statement, Statement.course, Choice.course, Question.holds_eq,
      courseOfBlock_statementsOf block]
    rfl
  | orElse q block last =>
    simp only [Choice.statement, Statement.course, courseOfElse, Choice.course, Question.holds_eq,
      courseOfBlock_statementsOf block, courseOfBlock_statementsOf last]
    rfl
  | orIf q block next =>
    -- the block behind `else` holds one branch only
    have hnext : courseOfBlock [next.statement] w = next.course w := by
      rw [← Choice.course_statement next]
      exact andThen_done
    simp only [Choice.statement, Statement.course, courseOfElse, Choice.course, Question.holds_eq,
      courseOfBlock_statementsOf block, hnext]
    rfl

/-- The statements that phrases stand for mean what the phrases say. -/
theorem courseOfBlock_statementsOf (ps : List Phrase) :
    courseOfBlock (statementsOf ps) = coursesOf ps := by
  cases ps with
  | nil => rfl
  | cons p ps =>
    rw [statementsOf, courseOfBlock, coursesOf, Phrase.course_statement p,
      courseOfBlock_statementsOf ps]

end

/-! ### Choices that are turned around -/

mutual

/-- The same phrase, in which some choices are turned around. -/
inductive Phrase.Turned : Phrase → Phrase → Prop
  | call (name : String) (argument : Argument) :
    Phrase.Turned (.call name argument) (.call name argument)
  | loop (grouped : Bool) (count : String) {body body' : List Phrase} :
    TurnedAll body body' → Phrase.Turned (.loop grouped count body) (.loop grouped count body')
  | choice {c c' : Choice} : c.Turned c' → Phrase.Turned (.choice c) (.choice c')
  | ended {p p' : Phrase} : p.Turned p' → Phrase.Turned (.ended p) (.ended p')

/-- The same choice, itself turned around or with some choices in its blocks turned around. -/
inductive Choice.Turned : Choice → Choice → Prop
  | turn (q : Question) {as as' bs bs' : List Phrase} :
    TurnedAll as as' → TurnedAll bs bs' →
      Choice.Turned (.orElse q.negation as bs) (.orElse q bs' as')
  | turnBack (q : Question) {as as' bs bs' : List Phrase} :
    TurnedAll as as' → TurnedAll bs bs' →
      Choice.Turned (.orElse q bs as) (.orElse q.negation as' bs')
  | only (q : Question) {as as' : List Phrase} :
    TurnedAll as as' → Choice.Turned (.only q as) (.only q as')
  | orElse (q : Question) {as as' bs bs' : List Phrase} :
    TurnedAll as as' → TurnedAll bs bs' → Choice.Turned (.orElse q as bs) (.orElse q as' bs')
  | orIf (q : Question) {as as' : List Phrase} {c c' : Choice} :
    TurnedAll as as' → c.Turned c' → Choice.Turned (.orIf q as c) (.orIf q as' c')

/-- The same phrases, in which some choices are turned around. -/
inductive TurnedAll : List Phrase → List Phrase → Prop
  | nil : TurnedAll [] []
  | cons {p p' : Phrase} {ps ps' : List Phrase} :
    p.Turned p' → TurnedAll ps ps' → TurnedAll (p :: ps) (p' :: ps')

end

mutual

theorem Phrase.Turned.symm {p p' : Phrase} (h : p.Turned p') : p'.Turned p := by
  cases h with
  | call name argument => exact .call name argument
  | loop grouped count h => exact .loop grouped count h.symm
  | choice h => exact .choice h.symm
  | ended h => exact .ended h.symm

theorem Choice.Turned.symm {c c' : Choice} (h : c.Turned c') : c'.Turned c := by
  cases h with
  | turn q h h' => exact .turnBack q h.symm h'.symm
  | turnBack q h h' => exact .turn q h.symm h'.symm
  | only q h => exact .only q h.symm
  | orElse q h h' => exact .orElse q h.symm h'.symm
  | orIf q h h' => exact .orIf q h.symm h'.symm

theorem TurnedAll.symm {ps ps' : List Phrase} (h : TurnedAll ps ps') : TurnedAll ps' ps := by
  cases h with
  | nil => exact .nil
  | cons h h' => exact .cons h.symm h'.symm

end

/-- Whatever compiles in the first way also compiles in the second way, to the same meter and to
commands with the same course. -/
def Matched (f g : Meter → Except ProgramError (List Command × Meter)) : Prop :=
  ∀ m cs m', f m = .ok (cs, m') → ∃ ds, g m = .ok (ds, m') ∧ courseOf ds = courseOf cs

section Matched

variable {body body' as as' bs bs' ss ss' : List Statement} {s s' : Statement}
  {last last' : Option (List Statement)} {c c' : Condition} {count : String} {l : Location}

theorem Matched.refl (f : Meter → Except ProgramError (List Command × Meter)) : Matched f f :=
  fun _ cs _ h => ⟨cs, h, rfl⟩

theorem matched_loop (h : Matched (compileBlock body) (compileBlock body')) :
    Matched (Statement.loop count body l).compile (Statement.loop count body' l).compile := by
  intro m cs m' hcompile
  obtain ⟨commands, inner, hbody, hcount, hcharge, rfl⟩ := compile_loop_eq_ok_iff.mp hcompile
  obtain ⟨commands', hbody', hcourse⟩ := h m commands inner hbody
  refine ⟨_, compile_loop_eq_ok_iff.mpr ⟨commands', inner, hbody', hcount, hcharge, rfl⟩, ?_⟩
  split
  · rfl
  · rw [courseOf_singleton, courseOf_singleton, Command.course, Command.course, hcourse]

theorem matched_branch (h : Matched (compileBlock as) (compileBlock as'))
    (h' : Matched (compileElse last) (compileElse last')) :
    Matched (Statement.branch c as last).compile (Statement.branch c as' last').compile := by
  intro m cs m' hcompile
  obtain ⟨hsensor, thenDo, thenMeter, elseDo, elseMeter, hthen, helse, hcharge, rfl⟩ :=
    compile_branch_eq_ok_iff.mp hcompile
  obtain ⟨thenDo', hthen', hthenCourse⟩ := h m thenDo thenMeter hthen
  obtain ⟨elseDo', helse', helseCourse⟩ := h' m elseDo elseMeter helse
  refine ⟨_, compile_branch_eq_ok_iff.mpr
    ⟨hsensor, thenDo', thenMeter, elseDo', elseMeter, hthen', helse', hcharge, rfl⟩, ?_⟩
  split
  · rfl
  · rw [courseOf_singleton, courseOf_singleton, Command.course, Command.course, hthenCourse,
      helseCourse]

/-- With the blocks exchanged, the longer one is the same, and the sensor decides between them the
other way. -/
theorem matched_turn (hsensor : c'.sensor = c.sensor) (hnegated : c'.negated = !c.negated)
    (h : Matched (compileBlock as) (compileBlock as'))
    (h' : Matched (compileBlock bs) (compileBlock bs')) :
    Matched (Statement.branch c as (some bs)).compile
      (Statement.branch c' bs' (some as')).compile := by
  intro m cs m' hcompile
  obtain ⟨hfire, thenDo, thenMeter, elseDo, elseMeter, hthen, helse, hcharge, rfl⟩ :=
    compile_branch_eq_ok_iff.mp hcompile
  obtain ⟨thenDo', hthen', hthenCourse⟩ := h m thenDo thenMeter hthen
  obtain ⟨elseDo', helse', helseCourse⟩ := h' m elseDo elseMeter helse
  -- the meter goes by the longer block, whichever of the two comes first
  rw [Nat.max_comm] at hcharge ⊢
  refine ⟨_, compile_branch_eq_ok_iff.mpr
    ⟨hsensor ▸ hfire, elseDo', elseMeter, thenDo', thenMeter, helse', hthen', hcharge, rfl⟩, ?_⟩
  split
  · rfl
  · rw [courseOf_singleton, courseOf_singleton, Command.course, Command.course, hthenCourse,
      helseCourse, hnegated]
    funext w
    cases w.onFire <;> cases c.negated <;> rfl

theorem matched_cons (h : Matched s.compile s'.compile)
    (h' : Matched (compileBlock ss) (compileBlock ss')) :
    Matched (compileBlock (s :: ss)) (compileBlock (s' :: ss')) := by
  intro m cs m' hcompile
  obtain ⟨first, next, rest, hfirst, hrest, rfl⟩ := compileBlock_cons_eq_ok_iff.mp hcompile
  obtain ⟨first', hfirst', hfirstCourse⟩ := h m first next hfirst
  obtain ⟨rest', hrest', hrestCourse⟩ := h' next rest m' hrest
  refine ⟨_, compileBlock_cons_eq_ok_iff.mpr ⟨first', next, rest', hfirst', hrest', rfl⟩, ?_⟩
  funext w
  rw [courseOf_append, courseOf_append, hfirstCourse, hrestCourse]

end Matched

mutual

theorem Phrase.Turned.matched {p p' : Phrase} (h : p.Turned p') :
    Matched p.statement.compile p'.statement.compile := by
  cases h with
  | call name argument => exact .refl _
  | loop grouped count h => exact matched_loop h.matched
  | choice h => exact h.matched
  | ended h => exact h.matched

theorem Choice.Turned.matched {c c' : Choice} (h : c.Turned c') :
    Matched c.statement.compile c'.statement.compile := by
  cases h with
  | turn q h h' =>
    have hnegated : q.odd = !q.negation.odd := by rw [q.odd_negation, Bool.not_not]
    exact matched_turn rfl hnegated h.matched h'.matched
  | turnBack q h h' => exact matched_turn rfl q.odd_negation h'.matched h.matched
  | only q h => exact matched_branch h.matched (.refl _)
  | orElse q h h' => exact matched_branch h.matched h'.matched
  | orIf q h h' => exact matched_branch h.matched (matched_cons h'.matched (.refl _))

/-- Phrases with choices turned around compile to the same meter and the same course. -/
theorem TurnedAll.matched {ps ps' : List Phrase} (h : TurnedAll ps ps') :
    Matched (compileBlock (statementsOf ps)) (compileBlock (statementsOf ps')) := by
  cases h with
  | nil => exact .refl _
  | cons h h' => exact matched_cons h.matched h'.matched

end

/-! ### Programs -/

section Programs

variable {ps ps' : List Phrase} {source a b : String} {budget : Nat} {cs ds : List Command}

/-- Every text that is made of the tokens of phrases is read as what the phrases stand for. -/
theorem exists_parse_of_phrases (h : Tokenized (tokensIn ps) source.toList) :
    ∃ ss, parseStatements source = .ok ss ∧ bareBlock ss = statementsOf ps :=
  exists_parse_of_readTokens h (readTokens_eq_some_iff_phrases.mpr ⟨ps, rfl, rfl⟩)

/-- Every text that is read is made of the tokens of phrases. -/
theorem exists_phrases_of_parse {ss : List Statement} (h : parseStatements source = .ok ss) :
    ∃ ps, Tokenized (tokensIn ps) source.toList ∧ bareBlock ss = statementsOf ps := by
  obtain ⟨ts, htokens, -⟩ := exists_tokenized_of_parse h
  have hread := parseStatements_of_tokenized htokens
  rw [h] at hread
  obtain ⟨ps, rfl, hps⟩ := readTokens_eq_some_iff_phrases.mp hread.symm
  exact ⟨ps, htokens, hps.symm⟩

/-- A text is accepted if what its phrases stand for compiles, and the commands are the same. -/
theorem parse_eq_ok_iff_phrases (h : Tokenized (tokensIn ps) source.toList) :
    parse source budget = .ok cs ↔ compile (statementsOf ps) budget = .ok cs := by
  obtain ⟨ss, hss, hps⟩ := exists_parse_of_phrases h
  -- notes on the text only show up in errors
  have hsame := sameKind_parse hss budget
  rw [hps] at hsame
  exact ⟨fun hparse => (hparse ▸ hsame).symm.eq_ok, fun hcompile => (hcompile ▸ hsame).eq_ok⟩

theorem eq_nil_of_bareBlock {ss : List Statement} (h : bareBlock ss = []) : ss = [] := by
  cases ss with
  | nil => rfl
  | cons s ss => cases h

/-- Without notes, only a branch with an empty block looks like one. -/
theorem exists_eq_of_bareBlock {ss : List Statement} {c : Condition}
    (h : bareBlock ss = [.branch c [] none]) :
    ∃ l, ss = [.branch { c with location := l } [] none] := by
  obtain _ | ⟨s, ss⟩ := ss
  · cases h
  · obtain ⟨hs, hss⟩ := List.cons.inj h
    obtain rfl := eq_nil_of_bareBlock hss
    cases s with
    | branch c' block last =>
      obtain ⟨rfl, hblock, hlast⟩ := Statement.branch.inj hs
      obtain rfl := eq_nil_of_bareBlock hblock
      cases last with
      | none => exact ⟨c'.location, rfl⟩
      | some last => cases hlast
    | _ => cases hs

/-- A question in front of an empty block is read as the condition that it stands for. -/
theorem parse_question {q : Question}
    (h : Tokenized (.ifWord :: (q.tokens ++ [.openBrace, .closeBrace])) source.toList) :
    ∃ l, parseStatements source = .ok [.branch ⟨q.odd, q.sensorName, l⟩ [] none] := by
  have htokens : tokensIn [.choice (.only q [])] =
      .ifWord :: (q.tokens ++ [.openBrace, .closeBrace]) := by
    rw [tokensIn, tokensIn, List.append_nil]
    rfl
  obtain ⟨ss, hss, hbare⟩ := exists_parse_of_phrases (htokens ▸ h)
  obtain ⟨l, rfl⟩ := exists_eq_of_bareBlock hbare
  exact ⟨l, hss⟩

/-- Runs of the commands show the course of the phrases, in every world, whatever the budget and the
count, and wherever they are cancelled. -/
def RunAs (ps : List Phrase) (cs : List Command) : Prop :=
  ∀ (w : World) (c : Context) (stop? : Option Nat),
    ({ world := w, executor := .ofCommands cs, context := c } : Machine).watch stop? =
      (coursesOf ps w).under w c stop?

theorem faithful_statementsOf_iff : Faithful (statementsOf ps) cs ↔ RunAs ps cs := by
  rw [Faithful, RunAs, courseOfBlock_statementsOf]

/-- Phrases with choices turned around are accepted under the same budgets, with the same cost and
the same runs. -/
theorem TurnedAll.parse (h : TurnedAll ps ps') (ha : Tokenized (tokensIn ps) a.toList)
    (hb : Tokenized (tokensIn ps') b.toList) (hcs : parse a budget = .ok cs) :
    ∃ ds, parse b budget = .ok ds ∧ costOf ds = costOf cs ∧ courseOf ds = courseOf cs := by
  obtain ⟨m, hblock⟩ := compile_eq_ok_iff.mp ((parse_eq_ok_iff_phrases ha).mp hcs)
  obtain ⟨ds, hblock', hcourse⟩ := h.matched _ cs m hblock
  refine ⟨ds, (parse_eq_ok_iff_phrases hb).mpr (compile_eq_ok_iff.mpr ⟨m, hblock'⟩), ?_, hcourse⟩
  -- the meter shows the cost of either
  have hused := (metered_of_compileBlock _ (Nat.zero_le _) hblock).used
  have hused' := (metered_of_compileBlock _ (Nat.zero_le _) hblock').used
  rw [Nat.zero_add] at hused hused'
  rw [costOf_eq, costOf_eq, ← hused, ← hused']

end Programs

/-- A program whose first choice fills the counter, so that the second one begins behind a full
meter. -/
def overfullChoices : String :=
  "if onFire { repeat 50 { repeat 50 { repeat 50 { repeat 50 { repeat 50 { forward 50 } } } } } }
if !onFire { collect }"

/-- The loops of the first choice as they are written. -/
def writtenLoops : Nat → List Phrase
  | 0 => [.call "forward" (.bare "50")]
  | n + 1 => [.loop false "50" (writtenLoops n)]

/-- The phrases of the program. -/
def overfullPhrases : List Phrase :=
  [.choice (.only (.sensor "onFire" false) (writtenLoops 5)),
    .choice (.only (.negation (.sensor "onFire" false)) [.call "collect" .absent])]

theorem tokenized_overfullChoices : Tokenized (tokensIn overfullPhrases) overfullChoices.toList :=
  tokenized_iff.mpr (by decide +kernel)

theorem parse_overfullChoices :
    parse overfullChoices counterLimit = .ok [.branch false (overfullLoops 5) []] := by
  decide +kernel

/-- Under the largest budget the second choice is left out. Where nothing burns, its block should
look for a crystal, but the run ends at once. -/
theorem not_runAs_overfull : ¬ RunAs overfullPhrases [.branch false (overfullLoops 5) []] := by
  intro hall
  let w := Level.phaseOne.world
  let c : Context := { budget := counterLimit }
  have hrun : (Machine.mk w (.ofCommands [.branch false (overfullLoops 5) []]) c).watch none =
      .ended w 0 .completed := by
    rw [watch_eq_under]
    rfl
  have hcourse : coursesOf overfullPhrases w = .step (.collectMissed ⟨0, 5⟩) w .done := by
    decide +kernel
  have hsame := hall w c none
  rw [hrun, hcourse] at hsame
  exact absurd (congrArg Log.count hsame) (by decide)

/-- What a question asks and which block a choice carries out can be told from how they are written.
A question is read as its sensor, negated if the number of its negations is odd. Every program is
made of phrases, and its tree is what they stand for. A choice carries out the block of the first
question that holds where it is reached. Under just the budgets below the limit of the counter, and
under any budget for the trees that do not fill it too early, all runs show what the phrases say.
Choices may be turned around. -/
theorem choices_choose_first_true {budget : Nat} (hbudget : budget ≤ counterLimit) :
    (∀ (q : Question) (source : String),
        Tokenized (.ifWord :: (q.tokens ++ [.openBrace, .closeBrace])) source.toList →
          ∃ l, parseStatements source =
            .ok [.branch ⟨q.negations % 2 == 1, q.sensorName, l⟩ [] none]) ∧
      (∀ source ss, parseStatements source = .ok ss →
          ∃ ps, Tokenized (tokensIn ps) source.toList ∧ bareBlock ss = statementsOf ps) ∧
      (∀ ps source, Tokenized (tokensIn ps) source.toList →
          ∃ ss, parseStatements source = .ok ss ∧ bareBlock ss = statementsOf ps) ∧
      (∀ (c : Choice) (w : World), c.course w = coursesOf (c.chosen w.onFire) w) ∧
      ((∀ ps source cs, Tokenized (tokensIn ps) source.toList → parse source budget = .ok cs →
          RunAs ps cs) ↔ budget < counterLimit) ∧
      (∀ ps source cs, Tokenized (tokensIn ps) source.toList → parse source budget = .ok cs →
          budget < counterLimit ∨ BlockHasRoom 0 (statementsOf ps) → RunAs ps cs) ∧
      ∀ ps ps' a b, TurnedAll ps ps' → Tokenized (tokensIn ps) a.toList →
        Tokenized (tokensIn ps') b.toList →
          ((∃ cs, parse a budget = .ok cs) ↔ ∃ ds, parse b budget = .ok ds) ∧
          ∀ cs ds, parse a budget = .ok cs → parse b budget = .ok ds →
            costOf cs = costOf ds ∧ ∀ (w : World) (c : Context) (stop? : Option Nat),
              (Machine.mk w (.ofCommands cs) c).watch stop? =
                (Machine.mk w (.ofCommands ds) c).watch stop? := by
  have hrun : ∀ ps source cs, Tokenized (tokensIn ps) source.toList →
      parse source budget = .ok cs →
        budget < counterLimit ∨ BlockHasRoom 0 (statementsOf ps) → RunAs ps cs := by
    intro ps source cs htokens hparse hroom
    have hcompile := (parse_eq_ok_iff_phrases htokens).mp hparse
    have hroom' : BlockHasRoom 0 (statementsOf ps) :=
      hroom.elim (fun hlimit => blockHasRoom_of_compile hlimit hcompile) id
    exact faithful_statementsOf_iff.mp (faithful_of_blockHasRoom hcompile hroom')
  refine ⟨fun q source => parse_question, fun source ss => exists_phrases_of_parse,
    fun ps source => exists_parse_of_phrases, Choice.course_eq, ⟨fun hall => ?_, ?_⟩, hrun, ?_⟩
  · -- the limit itself is too much for the overfull program
    refine Nat.lt_of_le_of_ne hbudget ?_
    rintro rfl
    exact not_runAs_overfull (hall _ _ _ tokenized_overfullChoices parse_overfullChoices)
  · intro hlimit ps source cs htokens hparse
    exact hrun ps source cs htokens hparse (.inl hlimit)
  · intro ps ps' a b hturned ha hb
    refine ⟨⟨?_, ?_⟩, fun cs ds hcs hds => ?_⟩
    · rintro ⟨cs, hcs⟩
      obtain ⟨ds, hds, -⟩ := hturned.parse ha hb hcs
      exact ⟨ds, hds⟩
    · rintro ⟨ds, hds⟩
      obtain ⟨cs, hcs, -⟩ := hturned.symm.parse hb ha hds
      exact ⟨cs, hcs⟩
    · obtain ⟨ds', hds', hcost, hcourse⟩ := hturned.parse ha hb hcs
      obtain rfl : ds = ds' := Except.ok.inj (hds.symm.trans hds')
      refine ⟨hcost.symm, fun w c stop? => ?_⟩
      rw [watch_eq_under, watch_eq_under, hcourse]

/-- Three negations around a sensor and a further choice behind `else`: where nothing burns, the
first block is chosen, and in a fire the second one. A choice that is turned around costs the
same. -/
theorem choices_choose_first_true_chain :
    let source := "if (!(!!isOnFire())) { collect } else if (onFire) { cover } else { left }"
    let q : Question := .grouping (.negation (.grouping (.negation (.negation
      (.sensor "isOnFire" true)))))
    let cover : List Phrase := [.call "cover" .absent]
    let left : List Phrase := [.ended (.call "left" .absent), .call "left" .absent]
    let collect : List Phrase := [.call "collect" .absent]
    let c : Choice := .orIf q collect (.orElse (.grouping (.sensor "onFire" false)) cover
      [.call "left" .absent])
    let cs : List Command :=
      [.branch true [.act .collect] [.branch false [.act .cover] [.act .turnLeft]]]
    let a := "if !onFire { collect } else { left; left }"
    let b := "if onFire { left; left } else { collect }"
    let ps : List Phrase := [.choice (.orElse (.negation (.sensor "onFire" false)) collect left)]
    let ps' : List Phrase := [.choice (.orElse (.sensor "onFire" false) left collect)]
    10 ≤ counterLimit ∧ 10 < counterLimit ∧
      (Tokenized (tokensIn [.choice c]) source.toList ∧ parse source 10 = .ok cs ∧
        RunAs [.choice c] cs ∧ c.chosen false = collect ∧ c.chosen true = cover) ∧
      Tokenized (.ifWord :: (q.tokens ++ [.openBrace, .closeBrace]))
          "if (!(!!isOnFire())) {}".toList ∧
        (q.negations = 3 ∧ q.sensorName = "isOnFire" ∧
          ∃ l, parseStatements "if (!(!!isOnFire())) {}" =
            .ok [.branch ⟨q.negations % 2 == 1, q.sensorName, l⟩ [] none]) ∧
      TurnedAll ps ps' ∧ Tokenized (tokensIn ps) a.toList ∧ Tokenized (tokensIn ps') b.toList ∧
        parse a 10 = .ok [.branch true [.act .collect] [.act .turnLeft, .act .turnLeft]] ∧
        parse b 10 = .ok [.branch false [.act .turnLeft, .act .turnLeft] [.act .collect]] ∧
        costOf [.branch true [.act .collect] [.act .turnLeft, .act .turnLeft]] =
          costOf [.branch false [.act .turnLeft, .act .turnLeft] [.act .collect]] := by
  intro source q cover left collect c cs a b ps ps'
  have hbudget : 10 ≤ counterLimit := by decide
  have hlimit : 10 < counterLimit := by decide
  have hsource : Tokenized (tokensIn [.choice c]) source.toList :=
    tokenized_iff.mpr (by decide +kernel)
  have hparse : parse source 10 = .ok cs := by decide +kernel
  have hquestion : Tokenized (.ifWord :: (q.tokens ++ [.openBrace, .closeBrace]))
      "if (!(!!isOnFire())) {}".toList := tokenized_iff.mpr (by decide +kernel)
  have ha : Tokenized (tokensIn ps) a.toList := tokenized_iff.mpr (by decide +kernel)
  have hb : Tokenized (tokensIn ps') b.toList := tokenized_iff.mpr (by decide +kernel)
  have hcs : parse a 10 = .ok [.branch true [.act .collect] [.act .turnLeft, .act .turnLeft]] := by
    decide +kernel
  have hds : parse b 10 = .ok [.branch false [.act .turnLeft, .act .turnLeft] [.act .collect]] := by
    decide +kernel
  have hturned : TurnedAll ps ps' :=
    .cons (.choice (.turn _ (.cons (.call _ _) .nil)
      (.cons (.ended (.call _ _)) (.cons (.call _ _) .nil)))) .nil
  obtain ⟨hquestions, -, -, -, -, hruns, hturns⟩ := choices_choose_first_true hbudget
  have hrun : RunAs [.choice c] cs := hruns _ _ _ hsource hparse (.inl hlimit)
  have hcost := ((hturns ps ps' a b hturned ha hb).2 _ _ hcs hds).1
  exact ⟨hbudget, hlimit, ⟨hsource, hparse, hrun, rfl, rfl⟩, hquestion,
    ⟨rfl, rfl, hquestions q _ hquestion⟩, hturned, ha, hb, hcs, hds, hcost⟩

/-- Under the largest budget a program can lose a whole choice. -/
theorem not_choices_choose_first_true :
    ¬ ∀ (budget : Nat) (ps : List Phrase) (source : String) (cs : List Command),
        budget ≤ counterLimit → Tokenized (tokensIn ps) source.toList →
          parse source budget = .ok cs → RunAs ps cs := by
  intro hall
  exact not_runAs_overfull (hall counterLimit _ _ _ (Nat.le_refl _) tokenized_overfullChoices
    parse_overfullChoices)

end RobotPuzzle
