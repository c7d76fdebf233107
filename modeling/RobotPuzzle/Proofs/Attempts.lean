import RobotPuzzle.Proofs.Faring
import RobotPuzzle.Proofs.Pointing

/-!
# The furthest failed attempt

The rules of the grammar, tried in their order, take the same programs as a reader. Of a text that
is no program a reader blames just the offset of the rule that failed furthest down. Wherever a call
or a branch has been left without what may follow it, the rules go on with the next statement, which
fails at once, and so do not get past the place where the reader has failed.

## Main definitions

* `Reader.Queries` — how a condition is tried beside a reader
* `Reader.Blocked` — what is left of a statement that was begun but may be left out
* `Reader.Runs` — how the statements of a block are tried beside a reader

## Main results

* `Reader.queries` — a condition fails where the reader does, or the negation before its sensor is
  the last rule to fail
* `Reader.fares_block`, `Reader.fares_branchRest`, `Reader.fares_bareStatement` — blocks, branches
  and statements, given the blocks inside them
* `Reader.runsBelow` — the statements of a block, by induction on its tokens
* `exists_tries_program` — the rules take just the programs, and a reader blames the furthest rule
  that failed
* `parseStatements_eq_error_iff_furthest` — a text that is no program is blamed on that rule
-/

namespace RobotPuzzle

namespace Reader

variable {s : Scan} {text : List Char} {r r' : Reader} {frames : List Frame}
  {done : List Statement} {l : Lexeme} {ls ms : List Lexeme}

/-! ### Conditions -/

/-- The next tokens are parentheses with nothing between them. -/
def Called (ls : List Lexeme) : Prop :=
  ∃ i j m n ms, ls = ⟨.openParen, i, j⟩ :: ⟨.closeParen, m, n⟩ :: ms

theorem tries_parens_of_not_called (h : ¬ Called ls) : Tries s .parens ls none [] := by
  rcases lacks_or_eq_cons .openParen ls with hopen | ⟨i, j, ls, rfl⟩
  · exact .failedSeq hopen.tries
  · rcases lacks_or_eq_cons .closeParen ls with hclose | ⟨m, n, ms, rfl⟩
    · exact .seq (.token rfl) hclose.tries
    · exact absurd ⟨i, j, m, n, ms, rfl⟩ h

/-- A condition has been read up to its sensor, and with the parentheses of the sensor if it has
any. -/
def Queried (opened : Nat) (name : Word) (p : Pending) (ms : List Lexeme) : Prop :=
  (∃ negated, p = .sensorDone negated opened name) ∨
    ∃ negated, p = .sensor negated opened name ∧ ¬ Called ms

section Queried

variable {opened : Nat} {name : Word} {p : Pending}

/-- Without the mark that must follow its sensor, a condition is blamed on what stands there, or on
its sensor if parentheses are open. -/
theorem Queried.read_of_lacks (h : Queried opened name p ms)
    (hlacks : Lacks (if opened = 0 then .openBrace else .closeParen) ms) :
    s.read text ⟨frames, done, p⟩ ms =
      .error (if opened = 0 then s.startOf ms else name.start) := by
  rcases h with ⟨negated, rfl⟩ | ⟨negated, rfl, hcalled⟩
  · refine read_of_unexpected rfl fun l hl => ?_
    cases opened <;> exact beq_false_of_ne (hlacks l hl)
  · rcases lacks_or_eq_cons .openParen ms with hopen | ⟨i, j, ms, rfl⟩
    · refine read_of_unexpected rfl fun l hl => ?_
      cases opened <;>
        exact Bool.or_eq_false_iff.mpr
          ⟨beq_false_of_ne (hopen l hl), beq_false_of_ne (hlacks l hl)⟩
    · -- the reader takes the parenthesis, and nothing goes on behind it
      rw [read_cons rfl]
      refine read_of_unexpected rfl fun l hl => ?_
      rcases lacks_or_eq_cons .closeParen ms with hclose | ⟨m, n, ms, rfl⟩
      · exact beq_false_of_ne (hclose l hl)
      · exact absurd ⟨i, j, m, n, ms, rfl⟩ hcalled

theorem Queried.exists_step?_closeParen (h : Queried (opened + 1) name p ms) (start stop : Nat) :
    ∃ negated, (⟨frames, done, p⟩ : Reader).step? text ⟨.closeParen, start, stop⟩ =
      some ⟨frames, done, .sensorDone negated opened name⟩ := by
  rcases h with ⟨negated, rfl⟩ | ⟨negated, rfl, -⟩ <;> exact ⟨negated, rfl⟩

variable (frames done) in
theorem Queried.exists_step?_openBrace (h : Queried 0 name p ms) :
    ∃ c, ∀ start stop, (⟨frames, done, p⟩ : Reader).step? text ⟨.openBrace, start, stop⟩ =
      some ⟨.thenBlock c done :: frames, [], .nothing⟩ := by
  rcases h with ⟨negated, rfl⟩ | ⟨negated, rfl, -⟩ <;>
    exact ⟨⟨negated, name.name, .ofOffset text name.start⟩, fun _ _ => rfl⟩

end Queried

/-- Trying a condition beside a reader. The last rule that fails on the way is the one for a
negation before the sensor. -/
inductive Queries (s : Scan) (text : List Char) (frames : List Frame) (done : List Statement)
    (negated : Bool) (opened : Nat) (ls : List Lexeme) : Prop
  | asked {ms : List Lexeme} {fs : List Nat} (name : Word) {p : Pending}
    (tries : Tries s (.rule .condition) ls (some ms) fs)
    (same : s.read text ⟨frames, done, .condition negated opened⟩ ls =
      s.read text ⟨frames, done, p⟩ ms)
    (queried : Queried opened name p ms) (furthest : Furthest fs name.start)
    (le : name.start ≤ s.startOf ms)
  | fails {fs : List Nat} {b : Nat} (tries : Tries s (.rule .condition) ls none fs)
    (error : s.read text ⟨frames, done, .condition negated opened⟩ ls = .error b)
    (furthest : Furthest fs b)

section Queries

variable {negated : Bool} {opened start stop : Nat}

/-- No condition begins with another token than a name, a negation or a parenthesis. -/
theorem queries_of_unexpected
    (h : ∀ l ∈ ls.head?, (Pending.condition negated opened).expects l.token = false) :
    Queries s text frames done negated opened ls := by
  have hheads : ∀ l ∈ ls.head?, l.token.isName = false ∧ l.token ≠ .bang ∧ l.token ≠ .openParen :=
    fun l hl => by simpa [Pending.expects] using h l hl
  have hnegation : Misses s (.rule .negation) ls :=
    .rule (misses_mark fun l hl => (hheads l hl).2.1)
  have hparen : Misses s (.mark .openParen) ls := misses_mark fun l hl => (hheads l hl).2.2
  have hname : Misses s (.rule .name) ls := .rule (misses_token fun l hl => (hheads l hl).1)
  have hcondition : Misses s (Rule.body .condition) ls :=
    .choice (.seq hnegation) (.choice (.seq hparen) (.rule (.seq hname)))
  obtain ⟨fs, htries, hfurthest⟩ := hcondition.furthest .condition
  exact .fails htries (read_of_unexpected rfl h) hfurthest

/-- The sensor, and the parentheses of its own. -/
theorem queries_word {name : String} (horder : s.Ordered (⟨.word name, start, stop⟩ :: ls)) :
    Queries s text frames done negated opened (⟨.word name, start, stop⟩ :: ls) := by
  have hgrouped : Misses s (.grouped (.rule .condition)) (⟨.word name, start, stop⟩ :: ls) :=
    .seq (misses_token_cons rfl)
  have hname : Tries s (.rule .name) (⟨.word name, start, stop⟩ :: ls) (some ls) [] :=
    .rule (.token rfl)
  obtain ⟨fs, htries, hfurthest⟩ : ∃ fs, Tries s (.rule .negation)
      (⟨.word name, start, stop⟩ :: ls) none fs ∧ Furthest fs start :=
    Misses.furthest .negation (misses_token_cons rfl)
  obtain ⟨gs, htries', hgs⟩ := hgrouped
  -- the negation that is looked for first fails at the sensor, and nothing fails behind it
  have hall : Furthest (fs ++ (gs ++ [])) start :=
    hfurthest.append_left (List.forall_mem_append.mpr ⟨hgs, fun _ => nofun⟩)
  by_cases hcalled : Called ls
  · obtain ⟨i, j, m, n, ms, rfl⟩ := hcalled
    have hparens : Tries s .parens (⟨.openParen, i, j⟩ :: ⟨.closeParen, m, n⟩ :: ms) (some ms) [] :=
      .seq (.token rfl) (.token rfl)
    exact .asked ⟨name, start, stop⟩
      (.rule (.second (.failedSeq htries) (.second htries'
        (.rule (.seq hname (.present hparens))))))
      ((read_cons rfl).trans ((read_cons rfl).trans (read_cons rfl))) (.inl ⟨_, rfl⟩) hall
      (horder.1.trans (horder.2.1.trans horder.2.2.1))
  · exact .asked ⟨name, start, stop⟩
      (.rule (.second (.failedSeq htries) (.second htries'
        (.rule (.seq hname (.absent (tries_parens_of_not_called hcalled)))))))
      (read_cons rfl) (.inr ⟨_, rfl, hcalled⟩) hall horder.1

theorem Queries.negation (h : Queries s text frames done (!negated) opened ls)
    (horder : s.Ordered (⟨.bang, start, stop⟩ :: ls)) :
    Queries s text frames done negated opened (⟨.bang, start, stop⟩ :: ls) := by
  have hnegation : Tries s (.rule .negation) (⟨.bang, start, stop⟩ :: ls) (some ls) [] :=
    .rule (.token rfl)
  have hrest : Misses s (.choice (.grouped (.rule .condition)) (.rule .query))
      (⟨.bang, start, stop⟩ :: ls) :=
    .choice (.seq (misses_token_cons rfl)) (.rule (.seq (.rule (misses_token_cons rfl))))
  cases h with
  | asked name tries same queried furthest le =>
    exact .asked name (.rule (.first (.seq hnegation tries))) ((read_cons rfl).trans same) queried
      furthest le
  | @fails fs b tries error furthest =>
    have hle : start ≤ b := horder.1.trans (tries.start_le horder.2 b furthest.1)
    -- the other ways are tried in vain after the first one, but at its first token
    obtain ⟨gs, htries, hgs⟩ := hrest
    exact .fails (.failedRule (.second (.seq hnegation tries) htries))
      ((read_cons rfl).trans error)
      ((furthest.append_left fun g hg => (hgs g hg).trans hle).cons hle)

/-- Without its closing parenthesis, a condition is blamed on the sensor inside. -/
theorem Queries.grouping (h : Queries s text frames done negated (opened + 1) ls)
    (horder : s.Ordered (⟨.openParen, start, stop⟩ :: ls)) :
    Queries s text frames done negated opened (⟨.openParen, start, stop⟩ :: ls) := by
  have hnegation : Misses s (.seq (.rule .negation) (.rule .condition))
      (⟨.openParen, start, stop⟩ :: ls) :=
    .seq (.rule (misses_token_cons rfl))
  have hquery : Misses s (.rule .query) (⟨.openParen, start, stop⟩ :: ls) :=
    .rule (.seq (.rule (misses_token_cons rfl)))
  obtain ⟨gs, htries, hgs⟩ := hnegation
  obtain ⟨es, htries', hes⟩ := hquery
  -- whatever fails within the parentheses fails the condition
  have hfails : ∀ {fs b}, Tries s (.grouped (.rule .condition))
      (⟨.openParen, start, stop⟩ :: ls) none fs →
      s.read text ⟨frames, done, .condition negated (opened + 1)⟩ ls = .error b →
      Furthest fs b → start ≤ b →
      Queries s text frames done negated opened (⟨.openParen, start, stop⟩ :: ls) :=
    fun hgrouped herror hfurthest hle =>
      .fails (.failedRule (.second htries (.second hgrouped htries')))
        ((read_cons rfl).trans herror)
        ((Furthest.append_right (fun g hg => (hgs g hg).trans hle)
          (hfurthest.append_left fun e he => (hes e he).trans hle)).cons hle)
  cases h with
  | @fails fs b tries error furthest =>
    exact hfails (.seq (.token rfl) (.failedSeq tries)) error furthest
      (horder.1.trans (tries.start_le horder.2 b furthest.1))
  | @asked ms fs name p tries same queried furthest le =>
    have hle : start ≤ name.start := horder.1.trans (tries.start_le horder.2 _ furthest.1)
    rcases lacks_or_eq_cons .closeParen ms with hclose | ⟨i, j, ms, rfl⟩
    · exact hfails (.seq (.token rfl) (.seq tries hclose.tries))
        (same.trans (queried.read_of_lacks hclose)) (furthest.append_left fun _ => nofun) hle
    · obtain ⟨negated', hstep⟩ := queried.exists_step?_closeParen i j
      exact .asked name
        (.rule (.second htries (.first (.seq (.token rfl) (.seq tries (.token rfl))))))
        ((read_cons rfl).trans (same.trans (read_cons hstep))) (.inl ⟨_, rfl⟩)
        (.append_right (fun g hg => (hgs g hg).trans hle) (furthest.append_left fun _ => nofun))
        (le.trans (horder.2.of_suffix (tries.suffix _ rfl)).1.1)

theorem queries (horder : s.Ordered ls) : Queries s text frames done negated opened ls := by
  -- on the tokens: a negation and a parenthesis leave a condition to be tried
  induction ls generalizing negated opened with
  | nil => exact queries_of_unexpected fun _ => nofun
  | cons l ls ih =>
    obtain ⟨token, start, stop⟩ := l
    cases token with
    | word name => exact queries_word horder
    | bang => exact (ih horder.2).negation horder
    | openParen => exact (ih horder.2).grouping horder
    | _ =>
      refine queries_of_unexpected ?_
      rintro l ⟨⟩
      rfl

end Queries

/-! ### Calls and counts -/

/-- The next token could only go on with a call or a branch before it. -/
inductive Blocked : List Lexeme → Prop
  | openParen {start stop : Nat} {ls : List Lexeme} : Blocked (⟨.openParen, start, stop⟩ :: ls)
  | elseWord {start stop : Nat} {ls : List Lexeme} : Blocked (⟨.elseWord, start, stop⟩ :: ls)

theorem Blocked.ne_nil (h : Blocked ls) : ls ≠ [] := by
  cases h <;> exact List.cons_ne_nil _ _

theorem Blocked.lacks {t : Token} (h : Blocked ls) (hparen : t ≠ .openParen)
    (helse : t ≠ .elseWord) : Lacks t ls := by
  cases h with
  | openParen =>
    rintro l ⟨⟩
    exact hparen.symm
  | elseWord =>
    rintro l ⟨⟩
    exact helse.symm

theorem Blocked.opening?_eq_none (h : Blocked ls) : ∀ l ∈ ls.head?, opening? l = none := by
  cases h <;> rintro l ⟨⟩ <;> rfl

/-- Without its closing parenthesis, a number in parentheses fails at the opening one. -/
theorem exists_tries_unclosed {a : Pattern} (start stop : Nat)
    (htries : Tries s a ls (some ms) []) (hclose : Lacks .closeParen ms) :
    ∃ fs, Tries s (.choice (.grouped a) (.rule .number)) (⟨.openParen, start, stop⟩ :: ls) none fs ∧
      Furthest fs start := by
  obtain ⟨fs, htries', hfurthest⟩ : ∃ fs, Tries s (.rule .number)
      (⟨.openParen, start, stop⟩ :: ls) none fs ∧ Furthest fs start :=
    Misses.furthest .number (misses_token_cons rfl)
  exact ⟨_, .second (.seq (.token rfl) (.seq htries hclose.tries)) htries',
    .append_right (fun _ => nofun) hfurthest⟩

theorem misses_number_openParen {start stop : Nat} :
    Misses s (.rule .number) (⟨.openParen, start, stop⟩ :: ls) :=
  .rule (misses_token_cons rfl)

/-- The count of a loop. -/
theorem fares_count {first : Nat} (horder : s.Ordered ls) :
    Fares s text .count Never (fun r' _ => ∃ count, r' = ⟨frames, done, .loopCount first count⟩)
      ⟨frames, done, .loop first⟩ ls := by
  rcases lacks_or_eq_cons .openParen ls with hopen | ⟨start, stop, ls, rfl⟩
  · -- a number without parentheses
    refine .second (.seq (misses_mark hopen)) ?_ horder
    rcases lacks_number_or_eq_cons ls with hnumber | ⟨digits, i, j, ls, rfl⟩
    · exact .of_misses (misses_token hnumber) (read_of_unexpected rfl fun l hl =>
        Bool.or_eq_false_iff.mpr ⟨hnumber l hl, beq_false_of_ne (hopen l hl)⟩)
    · exact .one tries_number rfl ⟨digits, rfl⟩
  · rcases lacks_number_or_eq_cons ls with hnumber | ⟨digits, i, j, ls, rfl⟩
    · refine .first (.cons (.token rfl) rfl ?_) misses_number_openParen horder
      exact .of_misses_seq (misses_token hnumber) (read_of_unexpected rfl hnumber)
    · rcases lacks_or_eq_cons .closeParen ls with hclose | ⟨m, n, ls, rfl⟩
      · -- the number has worked, so the last rule to fail is the one without parentheses
        obtain ⟨fs, htries, hfurthest⟩ := exists_tries_unclosed start stop tries_number hclose
        refine .fails htries ((read_cons rfl).trans ((read_cons rfl).trans ?_)) hfurthest
        exact read_of_unexpected rfl fun l hl => beq_false_of_ne (hclose l hl)
      · refine .first (.cons (.token rfl) rfl ?_) misses_number_openParen horder
        exact .cons tries_number rfl (.one (.token rfl) rfl ⟨digits, rfl⟩)

/-- The argument of a call from its parenthesis on. -/
theorem fares_argument {inner : List Frame} {name : Word} {start stop : Nat}
    (hreturns : Returns inner frames) (horder : s.Ordered (⟨.openParen, start, stop⟩ :: ls)) :
    Fares s text (.rule .argument) Never (Ended text frames) ⟨inner, done, .call name⟩
      (⟨.openParen, start, stop⟩ :: ls) := by
  refine .rule ?_ horder
  rcases lacks_number_or_eq_cons ls with hnumber | ⟨digits, i, j, ls, rfl⟩
  · refine .first (.cons (.token rfl) rfl ?_) misses_number_openParen horder
    rcases lacks_or_eq_cons .closeParen ls with hclose | ⟨m, n, ls, rfl⟩
    · -- a number is the last one that is looked for
      obtain ⟨fs, htries, hfurthest⟩ := Misses.furthest .number (misses_token hnumber)
      refine .fails (.seq (.absent htries) hclose.tries) ?_ (hfurthest.append_left fun _ => nofun)
      exact read_of_unexpected rfl fun l hl =>
        Bool.or_eq_false_iff.mpr ⟨hnumber l hl, beq_false_of_ne (hclose l hl)⟩
    · have habsent : Fares s text (.optional (.rule .number)) Never
          (fun r' ms => r' = ⟨inner, done, .callParen name start⟩ ∧ ms = ⟨.closeParen, m, n⟩ :: ls)
          ⟨inner, done, .callParen name start⟩ (⟨.closeParen, m, n⟩ :: ls) :=
        .absent (.rule (misses_token hnumber)) ⟨rfl, rfl⟩
      refine habsent.seq ?_ horder.2
      rintro _ _ ⟨rfl, rfl⟩ - -
      exact .one (.token rfl) rfl (hreturns.ended _ _ _)
  · rcases lacks_or_eq_cons .closeParen ls with hclose | ⟨m, n, ls, rfl⟩
    · obtain ⟨fs, htries, hfurthest⟩ :=
        exists_tries_unclosed start stop (.present tries_number) hclose
      refine .fails htries ((read_cons rfl).trans ((read_cons rfl).trans ?_)) hfurthest
      exact read_of_unexpected rfl fun l hl => beq_false_of_ne (hclose l hl)
    · refine .first (.cons (.token rfl) rfl ?_) misses_number_openParen horder
      exact .cons (.present tries_number) rfl
        (.one (.token rfl) rfl (hreturns.ended _ _ _))

/-- What may follow the name of a call. -/
theorem fares_optional_argument {inner : List Frame} {name : Word} (hreturns : Returns inner frames)
    (horder : s.Ordered ls) :
    Fares s text (.optional (.rule .argument)) Blocked (Ended text frames)
      ⟨inner, done, .call name⟩ ls := by
  rcases lacks_or_eq_cons .openParen ls with hopen | ⟨start, stop, ls, rfl⟩
  · rcases lacks_number_or_eq_cons ls with hnumber | ⟨digits, i, j, ls, rfl⟩
    · refine .absent (.rule (.choice (.seq (misses_mark hopen)) (.rule (misses_token hnumber)))) ?_
      exact ⟨rfl, fun _ => hreturns _ _, fun l hl =>
        Bool.or_eq_false_iff.mpr ⟨hnumber l hl, beq_false_of_ne (hopen l hl)⟩⟩
    · exact .goes (.present (.rule (.second (.failedSeq hopen.tries) tries_number))) (read_cons rfl)
        (hreturns.ended _ _ _) fun _ => nofun
  · exact ((fares_argument hreturns horder).imp (fun _ => nofun) fun _ _ => id).optional
      .openParen horder

/-! ### Blocks -/

/-- How the statements of a block are tried beside a reader. -/
inductive Runs (s : Scan) (text : List Char) (frames : List Frame) (r : Reader)
    (ls : List Lexeme) : Prop
  /-- Both get on to where no further statement begins. -/
  | all {ms : List Lexeme} {fs : List Nat} {r' : Reader}
    (tries : Tries s (.many .statement) ls (some ms) fs)
    (same : s.read text r ls = s.read text r' ms) (ready : Ready text frames r' ms)
    (behind : ∀ l ∈ ms.head?, opening? l = none) (furthest : Furthest fs (s.startOf ms))
  /-- The reader fails, and what is left does not begin with the end of the block. -/
  | broken {ms : List Lexeme} {fs : List Nat} {b : Nat}
    (tries : Tries s (.many .statement) ls (some ms) fs) (more : ms ≠ [])
    (lacks : Lacks .closeBrace ms) (error : s.read text r ls = .error b) (furthest : Furthest fs b)
    (le : s.startOf ms ≤ b)

/-- The statements of every block with less than `n` tokens run beside a reader. -/
def RunsBelow (s : Scan) (text : List Char) (n : Nat) : Prop :=
  ∀ {frames : List Frame} {r : Reader} {ls : List Lexeme}, ls.length < n → Braced frames →
    s.Ordered ls → Ready text frames r ls → Runs s text frames r ls

/-- A block has just been closed. -/
def Closed (text : List Char) (frames : List Frame) (r : Reader) : Prop :=
  ∃ r₀ : Reader, r₀.frames = frames ∧ r₀.closeBlock? text = some r

section Blocks

variable {n : Nat} {frame : Frame} {inner : List Frame}

theorem RunsBelow.mono {m : Nat} (h : RunsBelow s text n) (hle : m ≤ n) : RunsBelow s text m :=
  fun hlength => h (Nat.lt_of_lt_of_le hlength hle)

theorem exists_closed (hbraced : Braced (frame :: inner)) (hframes : r.frames = frame :: inner) :
    ∃ r', r.closeBlock? text = some r' := by
  rw [closeBlock?, hframes]
  cases frame with
  | loop | thenBlock | elseBlock => exact ⟨_, rfl⟩
  | elseIf => exact hbraced.elim

theorem fares_block (frame : Frame) (hruns : RunsBelow s text ls.length)
    (hbraced : Braced (frame :: inner)) (horder : s.Ordered ls)
    (hopen : ∀ start stop, r.step? text ⟨.openBrace, start, stop⟩ =
      some ⟨frame :: inner, [], .nothing⟩)
    (hlacks : Lacks .openBrace ls → s.read text r ls = .error (s.startOf ls)) :
    Fares s text (.rule .block) Never (fun r' _ => Closed text (frame :: inner) r') r ls := by
  rcases lacks_or_eq_cons .openBrace ls with hbrace | ⟨start, stop, ls, rfl⟩
  · exact .of_misses (.seq (misses_mark hbrace)) (hlacks hbrace)
  · refine .rule (.cons (.token rfl) (hopen start stop) ?_) horder
    cases hruns (Nat.lt_succ_self _) hbraced horder.2 (ready_opened text _ ls) with
    | @all ms fs r' tries same ready behind furthest =>
      rcases lacks_or_eq_cons .closeBrace ms with hclose | ⟨i, j, ms, rfl⟩
      · -- a brace is no rule, but one more statement was tried where it is missing
        refine .fails (.seq tries hclose.tries) (same.trans (ready.read_eq_error ?_ ?_))
          (furthest.append_left fun _ => nofun)
        · exact fun l hl => ⟨behind l hl, fun h => absurd h (hclose l hl)⟩
        · exact fun _ _ => nofun
      · obtain ⟨r'', hclosed⟩ := exists_closed hbraced (ready.frames_eq i)
        have hstep := (ready.step?_closeBrace i j).trans hclosed
        refine .goes (.seq tries (.token rfl)) (same.trans (read_cons hstep))
          ⟨_, ready.frames_eq i, hclosed⟩ ?_
        have hnext := (horder.2.of_suffix (tries.suffix _ rfl)).1.1
        exact List.forall_mem_append.mpr
          ⟨fun f hf => (furthest.2 f hf).trans hnext, fun _ => nofun⟩
    | broken tries _ lacks error furthest _ =>
      exact .fails (.seq tries lacks.tries) error (furthest.append_left fun _ => nofun)

/-- The end of any other block than the first one of a branch completes a statement. -/
theorem Closed.ended (h : Closed text (frame :: inner) r')
    (hframe : ∀ c before, frame ≠ .thenBlock c before) (hreturns : Returns inner frames)
    (ls : List Lexeme) : Ended text frames r' ls := by
  obtain ⟨r, hframes, hclose⟩ := h
  rw [closeBlock?, hframes] at hclose
  cases frame with
  | loop | elseBlock =>
    cases hclose
    exact hreturns.ended _ _ _
  | thenBlock c before => exact absurd rfl (hframe c before)
  | elseIf => cases hclose

theorem Closed.exists_thenDone {c : Condition} {before : List Statement}
    (h : Closed text (.thenBlock c before :: inner) r') :
    ∃ ss, r' = ⟨inner, before, .thenDone c ss⟩ := by
  obtain ⟨r, hframes, hclose⟩ := h
  rw [closeBlock?, hframes] at hclose
  cases hclose
  exact ⟨_, rfl⟩

/-- A loop behind its first word. -/
theorem fares_loopRest {first : Nat} (hruns : RunsBelow s text ls.length)
    (hreturns : Returns inner frames) (horder : s.Ordered ls) :
    Fares s text (.seq .count (.rule .block)) Never (Ended text frames)
      ⟨inner, done, .loop first⟩ ls := by
  refine (fares_count horder).seq ?_ horder
  rintro _ ms ⟨count, rfl⟩ hsuffix horder'
  refine Fares.imp (fares_block (.loop first count done) (hruns.mono hsuffix.length_le) trivial
    horder' (fun _ _ => rfl) fun hlacks => ?_) (fun _ => id) ?_
  · exact read_of_unexpected rfl fun l hl => beq_false_of_ne (hlacks l hl)
  · exact fun r' ms hclosed => hclosed.ended (fun _ _ => nofun) hreturns ms

/-! ### Branches -/

/-- What is left of a branch behind its first word, if it is fewer than `n` tokens. -/
def BranchesBelow (s : Scan) (text : List Char) (frames : List Frame) (n : Nat) : Prop :=
  ∀ {inner : List Frame} {done : List Statement} {ls : List Lexeme}, ls.length < n →
    Returns inner frames → s.Ordered ls →
    Fares s text .branchRest Blocked (Ended text frames) ⟨inner, done, .condition false 0⟩ ls

theorem BranchesBelow.mono {m : Nat} (h : BranchesBelow s text frames n) (hle : m ≤ n) :
    BranchesBelow s text frames m :=
  fun hlength => h (Nat.lt_of_lt_of_le hlength hle)

/-- What may follow the first block of a branch. -/
theorem fares_optional_otherwise {c : Condition} {ss : List Statement}
    (hruns : RunsBelow s text ls.length) (hbranches : BranchesBelow s text frames ls.length)
    (hreturns : Returns inner frames) (horder : s.Ordered ls) :
    Fares s text (.optional .otherwise) Blocked (Ended text frames)
      ⟨inner, done, .thenDone c ss⟩ ls := by
  rcases lacks_or_eq_cons .elseWord ls with helse | ⟨start, stop, ls, rfl⟩
  · refine .absent (.seq (.rule (misses_mark helse))) ?_
    exact ⟨rfl, fun _ => hreturns _ _, fun l hl => beq_false_of_ne (helse l hl)⟩
  · refine .optional (.cons (.rule (.token rfl)) rfl ?_) .elseWord horder
    rcases lacks_or_eq_cons .ifWord ls with hif | ⟨i, j, ls, rfl⟩
    · refine .second (.rule (.seq (.rule (misses_mark hif)))) ?_ horder.2
      refine Fares.imp (fares_block (.elseBlock c ss done) (hruns.mono (Nat.le_succ _)) trivial
        horder.2 (fun _ _ => rfl) fun hlacks => ?_) (fun _ => nofun) ?_
      · exact read_of_unexpected rfl fun l hl =>
          Bool.or_eq_false_iff.mpr ⟨beq_false_of_ne (hlacks l hl), beq_false_of_ne (hif l hl)⟩
      · exact fun r' ms hclosed => hclosed.ended (fun _ _ => nofun) hreturns ms
    · -- the branch behind `else` makes up a block of its own
      refine .first (.rule (.cons (.rule (.token rfl)) rfl ?_) horder.2)
        (.rule (.seq (misses_token_cons rfl))) horder.2
      exact hbranches (by simp only [List.length_cons]; omega) (hreturns.elseIf c ss done)
        horder.2.2

theorem Queries.fares (h : Queries s text frames done false 0 ls) :
    Fares s text (.rule .condition) Never
      (fun r' ms => ∃ name p, r' = ⟨frames, done, p⟩ ∧ Queried 0 name p ms)
      ⟨frames, done, .condition false 0⟩ ls := by
  cases h with
  | asked name tries same queried furthest le =>
    exact .goes tries same ⟨name, _, rfl, queried⟩ fun f hf => (furthest.2 f hf).trans le
  | fails tries error furthest => exact .fails tries error furthest

theorem fares_branchRest (hruns : RunsBelow s text ls.length)
    (hbranches : BranchesBelow s text frames ls.length) (hreturns : Returns inner frames)
    (horder : s.Ordered ls) :
    Fares s text .branchRest Blocked (Ended text frames) ⟨inner, done, .condition false 0⟩ ls := by
  refine (queries horder).fares.seq ?_ horder
  rintro _ ms ⟨name, p, rfl, hqueried⟩ hms horder'
  obtain ⟨c, hopen⟩ := hqueried.exists_step?_openBrace inner done
  refine (fares_block (.thenBlock c done) (hruns.mono hms.length_le) trivial horder' hopen
    hqueried.read_of_lacks).seq ?_ horder'
  intro r' ms' hclosed hms' horder''
  obtain ⟨ss, rfl⟩ := hclosed.exists_thenDone
  have hle : ms'.length ≤ ls.length := hms'.length_le.trans hms.length_le
  exact fares_optional_otherwise (hruns.mono hle) (hbranches.mono hle) hreturns horder''

theorem branchesBelow (hruns : RunsBelow s text n) : BranchesBelow s text frames n := by
  -- on the number of tokens: behind `else` there may be one more branch
  induction n with
  | zero => exact fun hlength => nomatch hlength
  | succ n ih =>
    intro inner done ls hlength
    have hle : ls.length ≤ n := Nat.le_of_lt_succ hlength
    exact fares_branchRest (hruns.mono hlength.le)
      (BranchesBelow.mono (ih (hruns.mono (Nat.le_succ n))) hle)

/-! ### Statements -/

theorem Ready.exists_step_opening {p : Pending} (h : Ready text frames r ls)
    (hopening : opening? l = some p) : ∃ done, r.step? text l = some ⟨frames, done, p⟩ := by
  have hadvance : r.Advance text l
      ⟨(r.settle text l.start).frames, (r.settle text l.start).done, p⟩ :=
    .opening h.settled hopening
  rw [h.frames_eq] at hadvance
  exact ⟨_, advance_iff.mpr hadvance⟩

/-- A statement without the semicolons behind it. -/
theorem fares_bareStatement {p : Pending} (hruns : RunsBelow s text (l :: ls).length)
    (hbraced : Braced frames) (horder : s.Ordered (l :: ls))
    (hready : Ready text frames r (l :: ls)) (hopening : opening? l = some p) :
    Fares s text .bareStatement Blocked (Ended text frames) r (l :: ls) := by
  have hreturns := returns_of_braced hbraced
  obtain ⟨done, hstep⟩ := hready.exists_step_opening hopening
  obtain ⟨token, start, stop⟩ := l
  cases token with
  | word name =>
    cases hopening
    refine .second (.rule (.seq (.rule (misses_token_cons rfl)))) ?_ horder
    refine .second (.rule (.seq (.rule (misses_token_cons rfl)))) ?_ horder
    refine .rule (.cons (.rule (.token rfl)) hstep ?_) horder
    exact fares_optional_argument hreturns horder.2
  | repeatWord =>
    cases hopening
    refine .first (.rule (.cons (.rule (.token rfl)) hstep ?_) horder)
      (.choice (.rule (.seq (.rule (misses_token_cons rfl))))
        (.rule (.seq (.rule (misses_token_cons rfl))))) horder
    exact (fares_loopRest (hruns.mono (Nat.le_succ _)) hreturns horder.2).imp (fun _ => nofun)
      fun _ _ => id
  | ifWord =>
    cases hopening
    refine .second (.rule (.seq (.rule (misses_token_cons rfl)))) (.first (.rule ?_ horder)
      (.rule (.seq (.rule (misses_token_cons rfl)))) horder) horder
    exact .cons (.rule (.token rfl)) hstep
      (branchesBelow hruns (Nat.lt_succ_self _) hreturns horder.2)
  | _ => cases hopening

/-- A statement with the semicolons behind it. -/
theorem Fares.statement (h : Fares s text .bareStatement Blocked (Ended text frames) r ls)
    (horder : s.Ordered ls) :
    Fares s text .statement Blocked (Ready text frames) r ls := by
  cases h with
  | @goes ms fs r' tries same post le =>
    obtain ⟨r'', ms', htries, hsame, hready⟩ := post.exists_ready s
    have hle := ((horder.of_suffix (tries.suffix _ rfl)).1.of_suffix (htries.suffix _ rfl)).2
    exact .goes (.seq tries htries) (same.trans hsame) hready
      (List.forall_mem_append.mpr ⟨fun f hf => (le f hf).trans hle, fun _ => nofun⟩)
  | stays tries stays error furthest le =>
    have hlacks := stays.lacks (t := .semicolon) nofun nofun
    exact .stays (.seq tries (.enough hlacks.tries)) stays error
      (furthest.append_left fun _ => nofun) le
  | fails tries error furthest => exact .fails (.failedSeq tries) error furthest

end Blocks

/-! ### The statements of a block -/

/-- Where no statement begins, all rules for statements fail at once. -/
theorem exists_tries_statement (h : ∀ l ∈ ls.head?, opening? l = none) :
    ∃ fs, Tries s .statement ls none fs ∧ Furthest fs (s.startOf ls) := by
  have hheads : ∀ l ∈ ls.head?, l.token.isName = false ∧ l.token ≠ .repeatWord ∧
      l.token ≠ .ifWord := by
    intro l hl
    have hopening := h l hl
    obtain ⟨token, start, stop⟩ := l
    cases token <;> simp [opening?, Token.isName] at hopening ⊢
  have hbranch : Misses s (.rule .branch) ls :=
    .rule (.seq (.rule (misses_mark fun l hl => (hheads l hl).2.2)))
  have hcall : Misses s (.rule .call) ls :=
    .rule (.seq (.rule (misses_token fun l hl => (hheads l hl).1)))
  obtain ⟨fs, htries, hfurthest⟩ := Misses.furthest .loop
    (.seq (.rule (misses_mark fun l hl => (hheads l hl).2.1)) : Misses s (Rule.body .loop) ls)
  obtain ⟨gs, htries', hgs⟩ := hbranch.choice hcall
  exact ⟨_, .failedSeq (.second htries htries'), hfurthest.append_left hgs⟩

theorem runs_of_no_opening (hready : Ready text frames r ls)
    (h : ∀ l ∈ ls.head?, opening? l = none) : Runs s text frames r ls := by
  obtain ⟨fs, htries, hfurthest⟩ := exists_tries_statement (s := s) h
  exact .all (.enough htries) rfl hready h hfurthest

/-- One statement and those behind it. If the statement is left where the reader has failed, no
other one is found there. -/
theorem Fares.runs (h : Fares s text .statement Blocked (Ready text frames) r ls)
    (hnext : ∀ r' ms, ms.length < ls.length → s.Ordered ms → Ready text frames r' ms →
      Runs s text frames r' ms)
    (hne : ls ≠ []) (hlacks : Lacks .closeBrace ls) (horder : s.Ordered ls) :
    Runs s text frames r ls := by
  cases h with
  | @goes ms fs r' tries same post le =>
    obtain ⟨horder', -⟩ := horder.of_suffix (tries.suffix _ rfl)
    cases hnext r' ms (consumes_statement s _ _ _ tries) horder' post with
    | all tries' same' ready behind furthest =>
      have hstart := (horder'.of_suffix (tries'.suffix _ rfl)).2
      exact .all (.more tries tries') (same.trans same') ready behind
        (.append_right (fun f hf => (le f hf).trans hstart) furthest)
    | broken tries' more lacks error furthest le' =>
      have hstart := tries'.start_le horder' _ furthest.1
      exact .broken (.more tries tries') more lacks (same.trans error)
        (.append_right (fun f hf => (le f hf).trans hstart) furthest) le'
  | stays tries stays error furthest le =>
    obtain ⟨gs, htries, hgs⟩ := exists_tries_statement (s := s) stays.opening?_eq_none
    exact .broken (.more tries (.enough htries)) stays.ne_nil (stays.lacks nofun nofun) error
      (furthest.append_left fun g hg => (hgs.2 g hg).trans le) le
  | fails tries error furthest =>
    exact .broken (.enough tries) hne hlacks error furthest
      (tries.start_le horder _ furthest.1)

theorem runsBelow (n : Nat) : RunsBelow s text n := by
  -- on the number of tokens, of which every statement takes some
  induction n with
  | zero => exact fun hlength => nomatch hlength
  | succ n ih =>
    intro frames r ls hlength hbraced horder hready
    cases ls with
    | nil => exact runs_of_no_opening hready fun _ => nofun
    | cons l ls =>
      have hle : (l :: ls).length ≤ n := Nat.le_of_lt_succ hlength
      cases hopening : opening? l with
      | none =>
        refine runs_of_no_opening hready ?_
        rintro l ⟨⟩
        exact hopening
      | some p =>
        have hstatement :=
          fares_bareStatement (RunsBelow.mono ih hle) hbraced horder hready hopening
        refine (hstatement.statement horder).runs ?_ (List.cons_ne_nil l ls) ?_ horder
        · exact fun r' ms hshorter => ih (Nat.lt_of_lt_of_le hshorter hle) hbraced
        · rintro l ⟨⟩ hbrace
          rw [opening?, hbrace] at hopening
          cases hopening

end Reader

/-! ### The whole program -/

theorem Scan.ordered_of_pairwise {s : Scan} {ls : List Lexeme}
    (hls : ∀ l ∈ ls, l.start ≤ l.stop ∧ l.stop ≤ s.stop)
    (horder : ls.Pairwise fun l m => l.stop ≤ m.start) : s.Ordered ls := by
  induction ls with
  | nil => trivial
  | cons l ls ih =>
    obtain ⟨⟨hl, hstop⟩, hls'⟩ := List.forall_mem_cons.mp hls
    obtain ⟨hnext, horder'⟩ := List.pairwise_cons.mp horder
    refine ⟨hl.trans ?_, ih hls' horder'⟩
    cases ls with
    | nil => exact hstop
    | cons m ls => exact hnext m List.mem_cons_self

theorem Lexer.ordered_scan (text : List Char) : (scan text).Ordered (scan text).lexemes := by
  obtain ⟨hspelled, horder, -, -⟩ := spelled_scanFrom (Nat.zero_le text.length)
  refine Scan.ordered_of_pairwise (fun l hl => ?_) horder
  obtain ⟨hl, -, hstop⟩ := hspelled l hl
  exact ⟨hl.start_lt_stop.le, hstop⟩

/-- The rules take just the programs, and a reader blames the furthest rule that failed. -/
theorem exists_tries_program (text : List Char) :
    ∃ o fs, Tries (Lexer.scan text) .program (Lexer.scan text).lexemes o fs ∧
      ((∃ ss, readStatements text = .ok ss ∧ o = some []) ∨
        ∃ p, readStatements text = .error p ∧ o = none ∧ Furthest fs p) := by
  have horder := Lexer.ordered_scan text
  have hread : readStatements text =
      (Lexer.scan text).read text {} (Lexer.scan text).lexemes := rfl
  -- from here on only the order of the tokens matters
  generalize Lexer.scan text = s at *
  rw [hread]
  have hbraced : Reader.Braced [] := trivial
  cases Reader.runsBelow (s.lexemes.length + 1) (Nat.lt_succ_self _) hbraced horder
    (Reader.ready_opened text [] s.lexemes) with
  | @all ms fs r' tries same ready behind furthest =>
    -- behind the last statement the text ends, or stands a token that begins nothing
    by_cases hend : ms = [] ∧ s.complete = true
    · obtain ⟨rfl, hcomplete⟩ := hend
      have hclose : r'.close? text s.stop = some (r'.settle text s.stop).done.reverse :=
        Reader.close?_eq_some_iff.mpr ⟨ready.settled, ready.frames_eq s.stop, rfl⟩
      have hok : s.read text r' [] = .ok (r'.settle text s.stop).done.reverse := by
        rw [Scan.read, Reader.readAll, hcomplete, if_pos rfl, hclose]
      exact ⟨_, _, .seq tries (.rule (.ending hcomplete)), .inl ⟨_, same.trans hok, rfl⟩⟩
    · have hmore : ms = [] → s.complete = false := fun hnil => by simpa [hnil] using hend
      obtain ⟨gs, htries, hfurthest⟩ := (misses_ending hmore).furthest .ending
      refine ⟨_, _, .seq tries htries, .inr ⟨_, same.trans (ready.read_eq_error ?_ ?_), rfl,
        furthest.append_left hfurthest.2⟩⟩
      · exact fun l hl => ⟨behind l hl, fun _ => rfl⟩
      · exact fun hnil hcomplete => absurd ⟨hnil, hcomplete⟩ hend
  | @broken ms fs b tries more _ error furthest le =>
    obtain ⟨gs, htries, hfurthest⟩ := (misses_ending fun hnil => absurd hnil more).furthest .ending
    exact ⟨_, _, .seq tries htries, .inr ⟨b, error, rfl,
      furthest.append_left fun g hg => (hfurthest.2 g hg).trans le⟩⟩

/-- A text is a program just if the rules take all of it. -/
theorem exists_parse_iff_tries {source : String} :
    (∃ ss, parseStatements source = .ok ss) ↔
      ∃ fs, Tries (Lexer.scan source.toList) .program (Lexer.scan source.toList).lexemes
        (some []) fs := by
  simp only [parseStatements_eq_ok_iff]
  obtain ⟨o, fs, htries, ⟨ss, hread, rfl⟩ | ⟨p, hread, rfl, -⟩⟩ :=
    exists_tries_program source.toList
  · exact ⟨fun _ => ⟨fs, htries⟩, fun _ => ⟨ss, hread⟩⟩
  · constructor
    · rintro ⟨ss, hok⟩
      rw [hok] at hread
      cases hread
    · rintro ⟨gs, htries'⟩
      cases (htries.unique htries').1

/-- A text that is no program is blamed on the furthest rule that failed. -/
theorem parseStatements_eq_error_iff_furthest {source : String} {e : ProgramError} :
    parseStatements source = .error e ↔
      ∃ fs p, Tries (Lexer.scan source.toList) .program (Lexer.scan source.toList).lexemes
        none fs ∧ Furthest fs p ∧ e = .ofOffset source.toList p := by
  rw [parseStatements_eq_error_iff]
  obtain ⟨o, fs, htries, ⟨ss, hread, rfl⟩ | ⟨p, hread, rfl, hfurthest⟩⟩ :=
    exists_tries_program source.toList
  · constructor
    · rintro ⟨p, hp, -⟩
      rw [hp] at hread
      cases hread
    · rintro ⟨gs, p, htries', -⟩
      cases (htries.unique htries').1
  · constructor
    · rintro ⟨q, hq, rfl⟩
      obtain rfl := Except.error.inj (hread.symm.trans hq)
      exact ⟨fs, p, htries, hfurthest, rfl⟩
    · rintro ⟨gs, q, htries', hfurthest', rfl⟩
      obtain ⟨-, rfl⟩ := htries.unique htries'
      obtain rfl := hfurthest.unique hfurthest'
      exact ⟨q, hread, rfl⟩

end RobotPuzzle
