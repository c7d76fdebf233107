import RobotPuzzle.Proofs.Completion

/-!
# The grammar of programs

A program consists of phrases: calls, loops and choices. A choice asks one question after the other,
each with a block of its own, and may have a last block behind them. A question asks for a sensor,
under any number of negations and parentheses. A reader accepts just the tokens of phrases, and what
it makes of them is what the phrases stand for: of a question the parity of its negations and its
sensor, and of a choice nested branches.

## Main definitions

* `Question`, `Argument`, `Phrase`, `Choice` — the grammar, with everything that may be written in
  several ways
* `Question.tokens`, `Phrase.tokens`, `tokensIn` — the tokens that are written
* `Phrase.statement`, `statementsOf` — the statements that are meant
* `Reader.Takes`, `Reader.Settles` — going through tokens, and completing what lacks nothing
* `Reader.Seen` — what a reader has seen when it is in a given state

## Main results

* `Reader.takes_phrases` — a reader takes the tokens of phrases
* `Reader.Seen.advance` — every token that a reader takes goes on with phrases
* `readTokens_eq_some_iff_phrases` — tokens are read as statements just if they are those of phrases
  that stand for them
-/

namespace RobotPuzzle

/-! ### The grammar -/

/-- A question as it is written: the name of a sensor, with a pair of parentheses of its own if it
is `called`, and any number of negations and parentheses around it. -/
inductive Question
  | sensor (name : String) (called : Bool)
  | negation (q : Question)
  | grouping (q : Question)
  deriving Repr

/-- The argument of a call as it is written. -/
inductive Argument
  | absent
  | parens
  | bare (digits : String)
  | grouped (digits : String)
  deriving Repr

mutual

/-- A statement as it is written. The count of a loop may be `grouped` in parentheses. A phrase that
is `ended` has a semicolon behind it. -/
inductive Phrase
  | call (name : String) (argument : Argument)
  | loop (grouped : Bool) (count : String) (body : List Phrase)
  | choice (c : Choice)
  | ended (p : Phrase)

/-- A choice from its first question on: one block, or one with another block behind `else`, or one
with a further choice behind `else`. -/
inductive Choice
  | only (q : Question) (block : List Phrase)
  | orElse (q : Question) (block last : List Phrase)
  | orIf (q : Question) (block : List Phrase) (next : Choice)

end

/-! ### What is written -/

/-- The tokens of a question. -/
def Question.tokens : Question → List Token
  | sensor name false => [.word name]
  | sensor name true => [.word name, .openParen, .closeParen]
  | negation q => .bang :: q.tokens
  | grouping q => .openParen :: (q.tokens ++ [.closeParen])

/-- The tokens of an argument. -/
def Argument.tokens : Argument → List Token
  | absent => []
  | parens => [.openParen, .closeParen]
  | bare digits => [.number digits]
  | grouped digits => [.openParen, .number digits, .closeParen]

/-- The tokens of a loop up to its block. -/
def loopHead (grouped : Bool) (count : String) : List Token :=
  if grouped then [.repeatWord, .openParen, .number count, .closeParen]
  else [.repeatWord, .number count]

/-- The tokens of a block with its braces. -/
def inBraces (ts : List Token) : List Token := .openBrace :: (ts ++ [.closeBrace])

mutual

/-- The tokens of a phrase. -/
def Phrase.tokens : Phrase → List Token
  | .call name argument => .word name :: argument.tokens
  | .loop grouped count body => loopHead grouped count ++ inBraces (tokensIn body)
  | .choice c => .ifWord :: c.tokens
  | .ended p => p.tokens ++ [.semicolon]

/-- The tokens of a choice behind its first word. -/
def Choice.tokens : Choice → List Token
  | .only q block => q.tokens ++ inBraces (tokensIn block)
  | .orElse q block last =>
    q.tokens ++ inBraces (tokensIn block) ++ .elseWord :: inBraces (tokensIn last)
  | .orIf q block next =>
    q.tokens ++ inBraces (tokensIn block) ++ .elseWord :: .ifWord :: next.tokens

/-- The tokens of phrases that follow each other. -/
def tokensIn : List Phrase → List Token
  | [] => []
  | p :: ps => p.tokens ++ tokensIn ps

end

theorem tokensIn_append (ps qs : List Phrase) :
    tokensIn (ps ++ qs) = tokensIn ps ++ tokensIn qs := by
  induction ps with
  | nil => rfl
  | cons p ps ih => simp only [List.cons_append, tokensIn, ih, List.append_assoc]

theorem tokensIn_concat (ps : List Phrase) (p : Phrase) :
    tokensIn (ps ++ [p]) = tokensIn ps ++ p.tokens := by
  rw [tokensIn_append, tokensIn, tokensIn, List.append_nil]

/-! ### What is meant -/

namespace Question

/-- The sensor that a question asks for. -/
def sensorName : Question → String
  | sensor name _ => name
  | negation q | grouping q => q.sensorName

/-- The number of negations in a question. -/
def negations : Question → Nat
  | sensor .. => 0
  | negation q => q.negations + 1
  | grouping q => q.negations

/-- Whether the answer of the sensor is turned around. -/
def odd (q : Question) : Bool := q.negations % 2 == 1

/-- What a branch asks: the sensor, negated if the number of negations is odd. -/
def condition (q : Question) : Condition := ⟨q.odd, q.sensorName, .first⟩

theorem odd_negation (q : Question) : q.negation.odd = !q.odd := by
  change ((q.negations + 1) % 2 == 1) = !(q.negations % 2 == 1)
  rcases Nat.mod_two_eq_zero_or_one q.negations with h | h <;> simp [Nat.add_mod, h]

theorem bne_odd_sensor (negated : Bool) (name : String) (called : Bool) :
    (negated != (sensor name called).odd) = negated := Bool.bne_false negated

theorem bne_odd_negation (negated : Bool) (q : Question) :
    (negated != q.negation.odd) = ((!negated) != q.odd) := by
  rw [odd_negation]
  cases negated <;> cases q.odd <;> rfl

end Question

/-- The number of an argument, if there is one. -/
def Argument.number? : Argument → Option String
  | absent | parens => none
  | bare digits | grouped digits => some digits

mutual

/-- The statement that a phrase stands for, without notes on the text. -/
def Phrase.statement : Phrase → Statement
  | .call name argument => .call name argument.number? "" .first
  | .loop _ count body => .loop count (statementsOf body) .first
  | .choice c => c.statement
  | .ended p => p.statement

/-- The branch that a choice stands for. A further choice is a block that holds its branch alone. -/
def Choice.statement : Choice → Statement
  | .only q block => .branch q.condition (statementsOf block) none
  | .orElse q block last => .branch q.condition (statementsOf block) (some (statementsOf last))
  | .orIf q block next => .branch q.condition (statementsOf block) (some [next.statement])

/-- The statements that phrases stand for. -/
def statementsOf : List Phrase → List Statement
  | [] => []
  | p :: ps => p.statement :: statementsOf ps

end

theorem statementsOf_concat (ps : List Phrase) (p : Phrase) :
    (statementsOf (ps ++ [p])).reverse = p.statement :: (statementsOf ps).reverse := by
  rw [← List.reverse_concat]
  congr 1
  induction ps with
  | nil => rfl
  | cons p' ps ih => simp only [List.cons_append, statementsOf, ih]

namespace Reader

variable {frames : List Frame} {done : List Statement} {p p' : Pending} {r r' r'' : Reader}
  {t : Token} {ts us : List Token}

/-! ### A reader takes the tokens of phrases -/

/-- The reader goes through some tokens, wherever they stand in a text. -/
def Takes (r : Reader) (ts : List Token) (r' : Reader) : Prop :=
  Reads [] r (ts.map fun t => ⟨t, 0, 0⟩) r'

theorem Takes.append (h : r.Takes ts r') (h' : r'.Takes us r'') : r.Takes (ts ++ us) r'' := by
  unfold Takes
  rw [List.map_append]
  exact Reads.append h h'

theorem Takes.cons (hstep : r.step? [] ⟨t, 0, 0⟩ = some r') (h : r'.Takes ts r'') :
    r.Takes (t :: ts) r'' :=
  Reads.cons hstep h

theorem takes_singleton (hstep : r.step? [] ⟨t, 0, 0⟩ = some r') : r.Takes [t] r' :=
  .cons hstep Reads.nil

/-- The statement under way lacks nothing, and completing it leaves the reader in a given state. -/
structure Settles (r r₀ : Reader) : Prop where
  settled : r.pending.settled = true
  settle_eq : r.settle [] 0 = r₀

theorem settles_complete (s : Statement) (frames : List Frame) (done : List Statement) :
    (complete s frames done).Settles (complete s frames done) := by
  obtain ⟨frames', done', heq, -, -⟩ := exists_complete s frames done
  rw [heq]
  exact ⟨rfl, rfl⟩

namespace Settles

theorem step_opening (h : r.Settles ⟨frames, done, p⟩) (hl : opening? ⟨t, 0, 0⟩ = some p') :
    r.step? [] ⟨t, 0, 0⟩ = some ⟨frames, done, p'⟩ := by
  have hadvance : r.Advance [] ⟨t, 0, 0⟩ { r.settle [] 0 with pending := p' } :=
    .opening h.settled hl
  rw [h.settle_eq] at hadvance
  exact advance_iff.mpr hadvance

theorem step_closeBrace (h : r.Settles ⟨frames, done, p⟩)
    (hclose : (⟨frames, done, p⟩ : Reader).closeBlock? [] = some r') :
    r.step? [] ⟨.closeBrace, 0, 0⟩ = some r' :=
  advance_iff.mpr (.closeBlock h.settled rfl (h.settle_eq ▸ hclose))

theorem step_semicolon (h : r.Settles ⟨frames, done, .separator⟩) :
    r.step? [] ⟨.semicolon, 0, 0⟩ = some ⟨frames, done, .separator⟩ := by
  have hadvance : r.Advance [] ⟨.semicolon, 0, 0⟩ (r.settle [] 0) :=
    .semicolon h.settled (congrArg pending h.settle_eq) rfl
  rw [h.settle_eq] at hadvance
  exact advance_iff.mpr hadvance

end Settles

/-- The sensor of a question has been read, with its parentheses or not. -/
def Asked (negated : Bool) (opened : Nat) (name : String) (p : Pending) : Prop :=
  p = .sensor negated opened ⟨name, 0, 0⟩ ∨ p = .sensorDone negated opened ⟨name, 0, 0⟩

/-- A question turns the answer around if the number of its negations is odd. -/
theorem takes_question (q : Question) (frames : List Frame) (done : List Statement)
    (negated : Bool) (opened : Nat) :
    ∃ p, Asked (negated != q.odd) opened q.sensorName p ∧
      (⟨frames, done, .condition negated opened⟩ : Reader).Takes q.tokens ⟨frames, done, p⟩ := by
  induction q generalizing negated opened with
  | sensor name called =>
    rw [Question.bne_odd_sensor]
    cases called with
    | false => exact ⟨_, .inl rfl, takes_singleton rfl⟩
    | true => exact ⟨_, .inr rfl, .cons rfl (.cons rfl (takes_singleton rfl))⟩
  | negation q ih =>
    obtain ⟨p, hasked, htakes⟩ := ih (!negated) opened
    rw [Question.bne_odd_negation]
    exact ⟨p, hasked, .cons rfl htakes⟩
  | grouping q ih =>
    -- the question inside begins with one more parenthesis open, and the last token closes it
    obtain ⟨p, hasked, htakes⟩ := ih negated (opened + 1)
    refine ⟨_, .inr rfl, .cons rfl (htakes.append (takes_singleton ?_))⟩
    rcases hasked with rfl | rfl <;> rfl

/-- A question leads into the block that stands behind it. -/
theorem takes_condition (q : Question) (frames : List Frame) (done : List Statement) :
    (⟨frames, done, .condition false 0⟩ : Reader).Takes (q.tokens ++ [.openBrace])
      ⟨.thenBlock q.condition done :: frames, [], .nothing⟩ := by
  obtain ⟨p, hasked, htakes⟩ := takes_question q frames done false 0
  refine htakes.append (takes_singleton ?_)
  rw [Bool.false_bne] at hasked
  rcases hasked with rfl | rfl <;> rfl

/-- A reader that has just opened a block takes tokens to the end of the block, which then holds
some statements. -/
def Fills (frames : List Frame) (ts : List Token) (ss : List Statement) : Prop :=
  ∃ r pending, (⟨frames, [], .nothing⟩ : Reader).Takes ts r ∧
    r.Settles ⟨frames, ss.reverse ++ [], pending⟩

theorem settles_opened (frames : List Frame) :
    (⟨frames, [], .nothing⟩ : Reader).Settles ⟨frames, [], .nothing⟩ := ⟨rfl, rfl⟩

section Fills

variable {ss : List Statement}

theorem Fills.takes_closeBrace (h : Fills frames ts ss)
    (hclose : ∀ pending, (⟨frames, ss.reverse, pending⟩ : Reader).closeBlock? [] = some r) :
    (⟨frames, [], .nothing⟩ : Reader).Takes (ts ++ [.closeBrace]) r := by
  obtain ⟨r₁, pending, htakes, hsettles⟩ := h
  rw [List.append_nil] at hsettles
  exact htakes.append (takes_singleton (hsettles.step_closeBrace (hclose pending)))

variable (frames done) in
theorem closeBlock?_loop (count : String) (ss : List Statement) (p : Pending) :
    (⟨.loop 0 count done :: frames, ss.reverse, p⟩ : Reader).closeBlock? [] =
      some (complete (.loop count ss .first) frames done) := by
  rw [closeBlock?, List.reverse_reverse]
  rfl

variable (frames done) in
theorem closeBlock?_thenBlock (c : Condition) (ss : List Statement) (p : Pending) :
    (⟨.thenBlock c done :: frames, ss.reverse, p⟩ : Reader).closeBlock? [] =
      some ⟨frames, done, .thenDone c ss⟩ := by
  rw [closeBlock?, List.reverse_reverse]

variable (frames done) in
theorem closeBlock?_elseBlock (c : Condition) (thenBlock ss : List Statement) (p : Pending) :
    (⟨.elseBlock c thenBlock done :: frames, ss.reverse, p⟩ : Reader).closeBlock? [] =
      some (complete (.branch c thenBlock (some ss)) frames done) := by
  rw [closeBlock?, List.reverse_reverse]

/-- A question and its block leave a branch to which `else` may be added. -/
theorem takes_firstBlock (q : Question) (h : Fills (.thenBlock q.condition done :: frames) ts ss) :
    (⟨frames, done, .condition false 0⟩ : Reader).Takes (q.tokens ++ inBraces ts)
      ⟨frames, done, .thenDone q.condition ss⟩ := by
  have hclose := h.takes_closeBrace (closeBlock?_thenBlock frames done q.condition ss)
  rw [inBraces, List.append_cons]
  exact (takes_condition q frames done).append hclose

end Fills

mutual

theorem takes_phrase (p : Phrase) {frames : List Frame} {done : List Statement} {r : Reader}
    {pending : Pending} (hframes : Braced frames) (h : r.Settles ⟨frames, done, pending⟩) :
    ∃ r', r.Takes p.tokens r' ∧ r'.Settles ⟨frames, p.statement :: done, .separator⟩ := by
  cases p with
  | call name argument =>
    have hcall : r.step? [] ⟨.word name, 0, 0⟩ = some ⟨frames, done, .call ⟨name, 0, 0⟩⟩ :=
      h.step_opening rfl
    have hpush (number? : Option String) :
        complete (.call name number? "" .first) frames done =
          ⟨frames, .call name number? "" .first :: done, .separator⟩ :=
      complete_of_braced hframes _ _
    cases argument with
    | absent => exact ⟨_, takes_singleton hcall, rfl, hpush none⟩
    | parens =>
      exact ⟨_, .cons hcall (.cons rfl (takes_singleton rfl)), hpush none ▸ settles_complete _ _ _⟩
    | bare digits =>
      exact ⟨_, .cons hcall (takes_singleton rfl), hpush (some digits) ▸ settles_complete _ _ _⟩
    | grouped digits =>
      exact ⟨_, .cons hcall (.cons rfl (.cons rfl (takes_singleton rfl))),
        hpush (some digits) ▸ settles_complete _ _ _⟩
  | loop grouped count body =>
    have hloop : r.step? [] ⟨.repeatWord, 0, 0⟩ = some ⟨frames, done, .loop 0⟩ :=
      h.step_opening rfl
    have hhead : r.Takes (loopHead grouped count) ⟨frames, done, .loopCount 0 count⟩ := by
      cases grouped with
      | false => exact .cons hloop (takes_singleton rfl)
      | true => exact .cons hloop (.cons rfl (.cons rfl (takes_singleton rfl)))
    have hbody : Fills (.loop 0 count done :: frames) (tokensIn body) (statementsOf body) :=
      takes_phrases body trivial (settles_opened _)
    have hblock := hbody.takes_closeBrace (closeBlock?_loop frames done count _)
    rw [complete_of_braced hframes] at hblock
    exact ⟨_, hhead.append (.cons rfl hblock), rfl, rfl⟩
  | choice c =>
    have hif : r.step? [] ⟨.ifWord, 0, 0⟩ = some ⟨frames, done, .condition false 0⟩ :=
      h.step_opening rfl
    obtain ⟨r', htakes, hsettles⟩ := takes_choice c frames done
    rw [complete_of_braced hframes] at hsettles
    exact ⟨r', .cons hif htakes, hsettles⟩
  | ended p =>
    obtain ⟨r', htakes, hsettles⟩ := takes_phrase p hframes h
    exact ⟨_, htakes.append (takes_singleton hsettles.step_semicolon), rfl, rfl⟩

/-- A choice completes its branch, also where it stands behind `else` itself. -/
theorem takes_choice (c : Choice) (frames : List Frame) (done : List Statement) :
    ∃ r', (⟨frames, done, .condition false 0⟩ : Reader).Takes c.tokens r' ∧
      r'.Settles (complete c.statement frames done) := by
  cases c with
  | only q block =>
    have hblock : Fills (.thenBlock q.condition done :: frames) _ (statementsOf block) :=
      takes_phrases block trivial (settles_opened _)
    -- the branch stays open for a block behind it until the next token is taken
    exact ⟨_, takes_firstBlock q hblock, rfl, rfl⟩
  | orElse q block last =>
    have hblock : Fills (.thenBlock q.condition done :: frames) _ (statementsOf block) :=
      takes_phrases block trivial (settles_opened _)
    have hlast : Fills (.elseBlock q.condition (statementsOf block) done :: frames) _
        (statementsOf last) :=
      takes_phrases last trivial (settles_opened _)
    have hclose := hlast.takes_closeBrace (closeBlock?_elseBlock frames done _ _ _)
    exact ⟨_, (takes_firstBlock q hblock).append (.cons rfl (.cons rfl hclose)),
      settles_complete _ _ _⟩
  | orIf q block next =>
    have hblock : Fills (.thenBlock q.condition done :: frames) _ (statementsOf block) :=
      takes_phrases block trivial (settles_opened _)
    obtain ⟨r', htakes, hsettles⟩ :=
      takes_choice next (.elseIf q.condition (statementsOf block) done :: frames) []
    exact ⟨r', (takes_firstBlock q hblock).append (.cons rfl (.cons rfl htakes)), hsettles⟩

/-- A reader takes the tokens of phrases and puts their statements before those that it has. -/
theorem takes_phrases (ps : List Phrase) {frames : List Frame} {done : List Statement} {r : Reader}
    {pending : Pending} (hframes : Braced frames) (h : r.Settles ⟨frames, done, pending⟩) :
    ∃ r' pending', r.Takes (tokensIn ps) r' ∧
      r'.Settles ⟨frames, (statementsOf ps).reverse ++ done, pending'⟩ := by
  cases ps with
  | nil => exact ⟨r, pending, .nil, h⟩
  | cons p ps =>
    obtain ⟨r₁, htakes, h₁⟩ := takes_phrase p hframes h
    obtain ⟨r₂, pending', htakes', h₂⟩ := takes_phrases ps hframes h₁
    refine ⟨r₂, pending', htakes.append htakes', ?_⟩
    rwa [statementsOf, List.reverse_cons, List.append_assoc]

end

/-! ### What a reader has seen -/

/-- Tokens that open a question: negations and parentheses, with the parity of the former and the
number of the latter. -/
inductive Opens : Bool → Nat → List Token → Prop
  | nil : Opens false 0 []
  | bang {negated : Bool} {opened : Nat} {ts : List Token} :
    Opens negated opened ts → Opens (!negated) opened (ts ++ [.bang])
  | paren {negated : Bool} {opened : Nat} {ts : List Token} :
    Opens negated opened ts → Opens negated (opened + 1) (ts ++ [.openParen])

/-- Tokens of a call or of a loop up to some point before its block. -/
inductive Head : Pending → List Token → Prop
  | call (name : String) : Head (.call ⟨name, 0, 0⟩) [.word name]
  | callParen (name : String) : Head (.callParen ⟨name, 0, 0⟩ 0) [.word name, .openParen]
  | callNumber (name digits : String) :
    Head (.callNumber ⟨name, 0, 0⟩ 0 digits) [.word name, .openParen, .number digits]
  | loop : Head (.loop 0) [.repeatWord]
  | loopParen : Head (.loopParen 0 0) [.repeatWord, .openParen]
  | loopNumber (count : String) :
    Head (.loopNumber 0 0 count) [.repeatWord, .openParen, .number count]
  | loopCount (grouped : Bool) (count : String) : Head (.loopCount 0 count) (loopHead grouped count)

/-- Tokens of a choice from behind its first word up to some point outside its blocks. -/
inductive Stage : Pending → List Token → Prop
  | condition {negated : Bool} {opened : Nat} {ts : List Token} :
    Opens negated opened ts → Stage (.condition negated opened) ts
  | sensor {negated : Bool} {opened : Nat} {ts : List Token} (name : String) :
    Opens negated opened ts → Stage (.sensor negated opened ⟨name, 0, 0⟩) (ts ++ [.word name])
  | sensorParen {negated : Bool} {opened : Nat} {ts : List Token} (name : String) :
    Opens negated opened ts →
      Stage (.sensorParen negated opened ⟨name, 0, 0⟩ 0) (ts ++ [.word name, .openParen])
  | sensorDone {negated : Bool} {opened : Nat} {ts : List Token} (q : Question) :
    Opens negated opened ts →
      Stage (.sensorDone (negated != q.odd) opened ⟨q.sensorName, 0, 0⟩) (ts ++ q.tokens)
  | thenDone (q : Question) (block : List Phrase) :
    Stage (.thenDone q.condition (statementsOf block)) (q.tokens ++ inBraces (tokensIn block))
  | elseBranch (q : Question) (block : List Phrase) :
    Stage (.elseBranch q.condition (statementsOf block))
      (q.tokens ++ inBraces (tokensIn block) ++ [.elseWord])

mutual

/-- Tokens that lead into a block, with the blocks around it. -/
inductive Entered : List Frame → List Token → Prop
  | program : Entered [] []
  | loop {frames : List Frame} {ts : List Token} (ps : List Phrase) (grouped : Bool)
      (count : String) :
    Entered frames ts → Entered (.loop 0 count (statementsOf ps).reverse :: frames)
      (ts ++ tokensIn ps ++ loopHead grouped count ++ [.openBrace])
  | thenBlock {frames : List Frame} {done : List Statement} {ts : List Token} (q : Question) :
    Asking frames done ts →
      Entered (.thenBlock q.condition done :: frames) (ts ++ q.tokens ++ [.openBrace])
  | elseBlock {frames : List Frame} {done : List Statement} {ts : List Token} (q : Question)
      (block : List Phrase) :
    Asking frames done ts → Entered (.elseBlock q.condition (statementsOf block) done :: frames)
      (ts ++ (q.tokens ++ inBraces (tokensIn block)) ++ [.elseWord, .openBrace])

/-- Tokens that lead up to the first question of a choice, which stands among the statements of a
block or behind `else`. -/
inductive Asking : List Frame → List Statement → List Token → Prop
  | inBlock {frames : List Frame} {ts : List Token} (ps : List Phrase) :
    Entered frames ts →
      Asking frames (statementsOf ps).reverse (ts ++ tokensIn ps ++ [.ifWord])
  | afterElse {frames : List Frame} {done : List Statement} {ts : List Token} (q : Question)
      (block : List Phrase) :
    Asking frames done ts → Asking (.elseIf q.condition (statementsOf block) done :: frames) []
      (ts ++ (q.tokens ++ inBraces (tokensIn block)) ++ [.elseWord, .ifWord])

end

/-- What a reader has seen: tokens that lead into the innermost block, the phrases that are complete
in it, and some tokens of the one under way. -/
inductive Seen : Reader → List Token → Prop
  | nothing {frames : List Frame} {ts : List Token} :
    Entered frames ts → Seen ⟨frames, [], .nothing⟩ ts
  | separator {frames : List Frame} {ts : List Token} (ps : List Phrase) (p : Phrase) :
    Entered frames ts →
      Seen ⟨frames, (statementsOf (ps ++ [p])).reverse, .separator⟩ (ts ++ tokensIn (ps ++ [p]))
  | head {frames : List Frame} {ts us : List Token} {pending : Pending} (ps : List Phrase) :
    Entered frames ts → Head pending us →
      Seen ⟨frames, (statementsOf ps).reverse, pending⟩ (ts ++ tokensIn ps ++ us)
  | stage {frames : List Frame} {done : List Statement} {ts us : List Token} {pending : Pending} :
    Asking frames done ts → Stage pending us → Seen ⟨frames, done, pending⟩ (ts ++ us)

theorem Entered.braced (h : Entered frames ts) : Braced frames := by
  cases h <;> trivial

/-- A phrase that is complete. -/
theorem Entered.seen_complete (h : Entered frames ts) (ps : List Phrase) (p : Phrase)
    {s : Statement} (hs : p.statement = s) (hus : ts ++ tokensIn ps ++ p.tokens = us) :
    Seen (complete s frames (statementsOf ps).reverse) us := by
  rw [complete_of_braced h.braced, ← hs, ← statementsOf_concat, ← hus, List.append_assoc,
    ← tokensIn_concat]
  exact .separator ps p h

/-- A choice that is complete completes the choices behind whose `else` it stands. -/
theorem Asking.seen_complete : ∀ {frames : List Frame} {done : List Statement} {ts us : List Token},
    Asking frames done ts → ∀ (c : Choice) {s : Statement}, c.statement = s →
      ts ++ c.tokens = us → Seen (complete s frames done) us
  | _, _, _, _, .inBlock ps h, c, _, hs, hus => by
    refine h.seen_complete ps (.choice c) hs ?_
    rw [← hus, Phrase.tokens, List.append_cons]
  | _, _, _, _, .afterElse q block h, c, _, hs, hus => by
    refine h.seen_complete (.orIf q block c) (hs ▸ rfl) ?_
    rw [← hus, Choice.tokens]
    simp only [List.append_assoc, List.cons_append, List.nil_append]

/-! ### Every token goes on with phrases -/

/-- A question inside opened parentheses and negations is one that closes the innermost of these
parentheses. -/
theorem Opens.exists_grouping {negated : Bool} {n : Nat} (h : Opens negated n us) :
    ∀ {opened : Nat} (q : Question), n = opened + 1 →
      ∃ (negated' : Bool) (us' : List Token) (q' : Question), Opens negated' opened us' ∧
        us' ++ q'.tokens = us ++ q.tokens ++ [.closeParen] ∧
        (negated' != q'.odd) = (negated != q.odd) ∧ q'.sensorName = q.sensorName := by
  induction h with
  | nil =>
    intro opened q hn
    cases hn
  | @bang negated n us h ih =>
    intro opened q hn
    obtain ⟨negated', us', q', hopens, htokens, hodd, hname⟩ := ih q.negation hn
    refine ⟨negated', us', q', hopens, ?_, ?_, hname⟩
    · rw [htokens, Question.tokens]
      simp only [List.append_assoc, List.cons_append, List.nil_append]
    · rw [hodd, Question.bne_odd_negation]
  | @paren negated n us h =>
    intro opened q hn
    obtain rfl := Nat.succ.inj hn
    refine ⟨negated, us, q.grouping, h, ?_, rfl, rfl⟩
    rw [Question.tokens]
    simp only [List.append_assoc, List.cons_append, List.nil_append]

/-- A question that only negations stand before is a question with them. -/
theorem Opens.exists_question {negated : Bool} {n : Nat} (h : Opens negated n us) :
    ∀ q : Question, n = 0 → ∃ q' : Question, q'.tokens = us ++ q.tokens ∧
      q'.condition = ⟨negated != q.odd, q.sensorName, .first⟩ := by
  induction h with
  | nil =>
    intro q _
    exact ⟨q, rfl, by rw [Bool.false_bne]; rfl⟩
  | @bang negated n us h ih =>
    intro q hn
    obtain ⟨q', htokens, hcondition⟩ := ih q.negation hn
    refine ⟨q', ?_, ?_⟩
    · rw [htokens, Question.tokens, List.append_cons]
    · rw [hcondition, Question.bne_odd_negation]
      rfl
  | paren h =>
    intro q hn
    cases hn

theorem Entered.seen_closeBlock? (h : Entered frames ts) (ps : List Phrase)
    (hclose : (⟨frames, (statementsOf ps).reverse, p⟩ : Reader).closeBlock? [] = some r) :
    Seen r (ts ++ tokensIn ps ++ [.closeBrace]) := by
  cases h with
  | program => cases hclose
  | loop qs grouped count h =>
    rw [closeBlock?_loop] at hclose
    obtain rfl := Option.some.inj hclose
    refine h.seen_complete qs (.loop grouped count ps) rfl ?_
    simp only [Phrase.tokens, inBraces, List.append_assoc, List.cons_append,
      List.nil_append]
  | thenBlock q h =>
    rw [closeBlock?_thenBlock] at hclose
    obtain rfl := Option.some.inj hclose
    have hseen := Seen.stage h (.thenDone q ps)
    rw [inBraces] at hseen
    simpa only [List.append_assoc, List.cons_append, List.nil_append] using hseen
  | elseBlock q block h =>
    rw [closeBlock?_elseBlock] at hclose
    obtain rfl := Option.some.inj hclose
    refine h.seen_complete (.orElse q block ps) rfl ?_
    simp only [Choice.tokens, inBraces, List.append_assoc, List.cons_append,
      List.nil_append]

/-- A further token of a call or of a loop. -/
theorem Head.grow (h : Head p us) (hgrows : p.Grows ⟨t, 0, 0⟩ p') : Head p' (us ++ [t]) := by
  cases hgrows with
  | loopBare =>
    cases h
    exact .loopCount false _
  | loopGrouped =>
    cases h
    exact .loopCount true _
  | _ => cases h <;> constructor

/-- The last token of a call. -/
theorem Head.exists_phrase (h : Head p us) {name : Word} {argument : Option String}
    (hcalls : p.Calls ⟨t, 0, 0⟩ name argument) :
    ∃ p : Phrase, p.statement = callOf [] name argument 0 ∧ p.tokens = us ++ [t] := by
  cases h with
  | call name =>
    cases hcalls with
    | bare => exact ⟨.call name (.bare _), rfl, rfl⟩
  | callParen name =>
    cases hcalls with
    | parens => exact ⟨.call name .parens, rfl, rfl⟩
  | callNumber name digits =>
    cases hcalls with
    | grouped => exact ⟨.call name (.grouped digits), rfl, rfl⟩
  | _ => cases hcalls

/-- A question whose sensor was read in parentheses goes on with the innermost of these. -/
theorem Opens.stage_grouping {negated : Bool} {opened : Nat} (h : Opens negated (opened + 1) us)
    (q : Question) :
    Stage (.sensorDone (negated != q.odd) opened ⟨q.sensorName, 0, 0⟩)
      (us ++ q.tokens ++ [.closeParen]) := by
  obtain ⟨negated', us', q', hopens, htokens, hodd, hname⟩ := h.exists_grouping q rfl
  rw [← htokens, ← hodd, ← hname]
  exact .sensorDone q' hopens

/-- A further token of a choice outside its blocks. -/
theorem Stage.grow (h : Stage p us) (hgrows : p.Grows ⟨t, 0, 0⟩ p') : Stage p' (us ++ [t]) := by
  cases h with
  | condition hopens =>
    cases hgrows with
    | negation => exact .condition hopens.bang
    | grouping => exact .condition hopens.paren
    | sensor => exact .sensor _ hopens
  | @sensor negated _ us name hopens =>
    cases hgrows with
    | sensorParen =>
      rw [List.append_assoc]
      exact .sensorParen name hopens
    | sensorGrouped =>
      have hstage := hopens.stage_grouping (.sensor name false)
      rwa [Question.bne_odd_sensor] at hstage
  | sensorParen name hopens =>
    cases hgrows with
    | sensorCalled =>
      have hstage := Stage.sensorDone (.sensor name true) hopens
      rw [Question.bne_odd_sensor] at hstage
      rw [List.append_assoc]
      exact hstage
  | sensorDone q hopens =>
    cases hgrows with
    | grouped => exact hopens.stage_grouping q
  | thenDone q block =>
    cases hgrows with
    | elseWord => exact .elseBranch q block
  | elseBranch => cases hgrows

/-- The first block of a choice begins behind a question that stands in no open parentheses. -/
theorem Asking.entered_thenBlock {negated : Bool} (h : Asking frames done ts) (q : Question)
    (hopens : Opens negated 0 us) :
    Entered (.thenBlock ⟨negated != q.odd, q.sensorName, .first⟩ done :: frames)
      (ts ++ (us ++ q.tokens) ++ [.openBrace]) := by
  obtain ⟨q', htokens, hcondition⟩ := hopens.exists_question q rfl
  rw [← htokens, ← hcondition]
  exact .thenBlock q' h

theorem Stage.enter (h : Stage p us) (hasking : Asking frames done ts) {frame : Frame}
    (henters : p.Enters [] done ⟨t, 0, 0⟩ frame) : Entered (frame :: frames) (ts ++ us ++ [t]) := by
  cases h with
  | sensor name hopens =>
    cases henters with
    | sensor =>
      have hentered := hasking.entered_thenBlock (.sensor name false) hopens
      rwa [Question.bne_odd_sensor] at hentered
  | sensorDone q hopens =>
    cases henters with
    | sensorDone => exact hasking.entered_thenBlock q hopens
  | elseBranch q block =>
    cases henters with
    | elseBlock =>
      simpa only [List.append_assoc, List.cons_append, List.nil_append] using
        Entered.elseBlock q block hasking
  | _ => cases henters

/-- Completing the statement under way adds nothing to what was seen. -/
theorem Seen.settle (h : Seen r ts) (hsettled : r.pending.settled = true) :
    Seen (r.settle [] 0) ts ∧
      ((r.settle [] 0).pending = .nothing ∨ (r.settle [] 0).pending = .separator) := by
  cases h with
  | nothing h => exact ⟨.nothing h, .inl rfl⟩
  | separator ps p h => exact ⟨.separator ps p h, .inr rfl⟩
  | head ps h hhead =>
    cases hhead with
    | call name =>
      exact ⟨h.seen_complete ps (.call name .absent) rfl rfl, .inr (pending_complete _ _ _)⟩
    | _ => cases hsettled
  | stage h hstage =>
    cases hstage with
    | thenDone q block =>
      exact ⟨h.seen_complete (.only q block) rfl rfl, .inr (pending_complete _ _ _)⟩
    | _ => cases hsettled

/-- Between two statements, a reader has seen what leads into the innermost block and the phrases
that are complete in it. -/
theorem Seen.exists_phrases (h : Seen r ts) (hp : r.pending = .nothing ∨ r.pending = .separator) :
    ∃ us ps, Entered r.frames us ∧ r.done = (statementsOf ps).reverse ∧ ts = us ++ tokensIn ps := by
  cases h with
  | @nothing frames ts h => exact ⟨ts, [], h, rfl, (List.append_nil ts).symm⟩
  | separator ps p h => exact ⟨_, _, h, rfl, rfl⟩
  | head ps h hhead => cases hhead <;> rcases hp with hp | hp <;> cases hp
  | stage h hstage => cases hstage <;> rcases hp with hp | hp <;> cases hp

/-- A phrase begins behind those that are complete. -/
theorem Entered.seen_opening (h : Entered frames ts) (ps : List Phrase)
    (hfirst : opening? ⟨t, 0, 0⟩ = some p) :
    Seen ⟨frames, (statementsOf ps).reverse, p⟩ (ts ++ tokensIn ps ++ [t]) := by
  cases t with
  | word name =>
    cases hfirst
    exact .head ps h (.call name)
  | repeatWord =>
    cases hfirst
    exact .head ps h .loop
  | ifWord =>
    cases hfirst
    have hseen := Seen.stage (.inBlock ps h) (.condition .nil)
    rwa [List.append_nil] at hseen
  | _ => cases hfirst

/-- A semicolon ends the last phrase once more. -/
theorem Seen.semicolon (h : Seen r ts) (hp : r.pending = .separator) :
    Seen r (ts ++ [.semicolon]) := by
  cases h with
  | nothing => cases hp
  | separator ps p h =>
    have hseen := Seen.separator ps (.ended p) h
    rw [statementsOf_concat, tokensIn_concat, Phrase.tokens, Phrase.statement] at hseen
    rw [statementsOf_concat, tokensIn_concat]
    simpa only [List.append_assoc] using hseen
  | head _ _ hhead => cases hhead <;> cases hp
  | stage _ hstage => cases hstage <;> cases hp

/-- Every token that a reader takes goes on with the phrases that it has seen. -/
theorem Seen.advance (h : Seen r ts) (hadvance : r.Advance [] ⟨t, 0, 0⟩ r') :
    Seen r' (ts ++ [t]) := by
  cases hadvance with
  | grow grows =>
    cases h with
    | nothing | separator => cases grows
    | head ps hentered hhead =>
      rw [List.append_assoc]
      exact .head ps hentered (hhead.grow grows)
    | stage hasking hstage =>
      rw [List.append_assoc]
      exact .stage hasking (hstage.grow grows)
  | call calls =>
    cases h with
    | nothing | separator => cases calls
    | head ps hentered hhead =>
      obtain ⟨phrase, hs, htokens⟩ := hhead.exists_phrase calls
      refine hentered.seen_complete ps phrase hs ?_
      rw [htokens, List.append_assoc _ _ [t]]
    | stage _ hstage => cases hstage <;> cases calls
  | enter enters =>
    cases h with
    | nothing | separator => cases enters
    | head ps hentered hhead =>
      cases hhead with
      | loopCount grouped count =>
        cases enters
        exact .nothing (.loop ps grouped count hentered)
      | _ => cases enters
    | stage hasking hstage => exact .nothing (hstage.enter hasking enters)
  | elseIf branch word =>
    obtain rfl : t = .ifWord := word
    cases h with
    | nothing | separator => cases branch
    | head _ _ hhead => cases hhead <;> cases branch
    | stage hasking hstage =>
      cases hstage <;> cases branch
      simpa only [List.append_assoc, List.cons_append, List.nil_append, List.append_nil] using
        Seen.stage (.afterElse _ _ hasking) (.condition .nil)
  | @opening p settled first =>
    obtain ⟨hseen, hpending⟩ := h.settle settled
    obtain ⟨us, ps, hentered, hdone, rfl⟩ := hseen.exists_phrases hpending
    change Seen ⟨(r.settle [] 0).frames, (r.settle [] 0).done, p⟩ _
    rw [hdone]
    exact hentered.seen_opening ps first
  | semicolon settled separator mark =>
    obtain rfl : t = .semicolon := mark
    exact (h.settle settled).1.semicolon separator
  | closeBlock settled mark close =>
    obtain rfl : t = .closeBrace := mark
    obtain ⟨hseen, hpending⟩ := h.settle settled
    obtain ⟨us, ps, hentered, hdone, rfl⟩ := hseen.exists_phrases hpending
    refine hentered.seen_closeBlock? ps (p := (r.settle [] 0).pending) ?_
    rw [← hdone]
    exact close

theorem Seen.of_takes (h : Seen r ts) (htakes : r.Takes us r') : Seen r' (ts ++ us) := by
  induction us generalizing r ts with
  | nil =>
    cases htakes
    rwa [List.append_nil]
  | cons t us ih =>
    cases htakes with
    | cons hstep hreads =>
      rw [List.append_cons]
      exact ih (h.advance (advance_iff.mp hstep)) hreads

end Reader

open Reader in
/-- Tokens are read as just those statements that phrases with these tokens stand for. -/
theorem readTokens_eq_some_iff_phrases {ts : List Token} {ss : List Statement} :
    readTokens ts = some ss ↔ ∃ ps, tokensIn ps = ts ∧ statementsOf ps = ss := by
  rw [readTokens_eq_some_iff]
  constructor
  · rintro ⟨r, htakes, hclose⟩
    obtain ⟨hsettled, hframes, rfl⟩ := close?_eq_some_iff.mp hclose
    have hseen : Seen r ([] ++ ts) := Seen.of_takes (.nothing .program) htakes
    obtain ⟨hsettle, hpending⟩ := hseen.settle hsettled
    obtain ⟨us, ps, hentered, hdone, hts⟩ := hsettle.exists_phrases hpending
    -- outside all blocks nothing leads into one
    rw [hframes] at hentered
    cases hentered
    exact ⟨ps, hts.symm, by rw [hdone, List.reverse_reverse]⟩
  · rintro ⟨ps, rfl, rfl⟩
    obtain ⟨r, p, htakes, hsettles⟩ : Fills [] (tokensIn ps) (statementsOf ps) :=
      takes_phrases ps trivial (settles_opened [])
    refine ⟨r, htakes, close?_eq_some_iff.mpr ⟨hsettles.settled, ?_, ?_⟩⟩
    · rw [hsettles.settle_eq]
    · rw [hsettles.settle_eq, List.append_nil, List.reverse_reverse]

end RobotPuzzle
