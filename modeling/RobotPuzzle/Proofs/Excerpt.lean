import RobotPuzzle.Proofs.Pointing

/-!
# What is quoted of a call

A call is quoted as it stands in the text, so that the player finds again what an error is about.
What is quoted of a call with an argument ends where the argument does. Behind a name alone an
argument might follow, and what is skipped in looking for one is taken in: the quotation goes up to
the next token, or to the end of the text, and only then white space is trimmed off. So blanks
behind the name are not quoted, but comments are.

## Main definitions

* `CallSite.written`, `CallSite.gap` — the call itself, and what stands before the next token

## Main results

* `Lexer.tokenized_gap` — nothing but blanks and comments stands between two tokens
* `CallSite.trimEnd_slice_eq` — trimming spares the call itself
* `trimEnd_gap_eq_nil_iff` — trimming leaves nothing of what is skipped if that is blank
* `quoted_eq_written_iff` — when a quotation is the call and nothing else
-/

namespace RobotPuzzle

/-! ### Trimming -/

section Trimming

variable {cs gap : List Char}

/-- Trimming stops at a character that is no white space. -/
theorem trimEnd_append {c : Char} (h : cs.getLast? = some c) (hc : isBlank c = false)
    (ds : List Char) : trimEnd (cs ++ ds) = cs ++ trimEnd ds := by
  obtain ⟨bs, rfl⟩ := List.getLast?_eq_some_iff.mp h
  have hstop : (bs ++ [c]).reverse.dropWhile isBlank = (bs ++ [c]).reverse := by
    rw [List.reverse_append, List.reverse_singleton, List.singleton_append,
      List.dropWhile_cons_of_neg (by simp [hc])]
  rw [trimEnd, trimEnd, List.reverse_append, List.dropWhile_append, hstop]
  split
  · next hnil =>
    rw [List.isEmpty_iff.mp hnil, List.reverse_reverse, List.reverse_nil, List.append_nil]
  · rw [List.reverse_append, List.reverse_reverse]

theorem trimEnd_eq_nil_iff : trimEnd cs = [] ↔ ∀ c ∈ cs, isBlank c = true := by
  rw [trimEnd, List.reverse_eq_nil_iff, List.dropWhile_eq_nil_iff]
  simp only [List.mem_reverse]

theorem isBlank_of_isGap {c : Char} (h : Lexer.isGap c = true) : isBlank c = true := by
  simp only [Lexer.isGap, Bool.or_eq_true, beq_iff_eq] at h
  rcases h with ((rfl | rfl) | rfl) | rfl <;> rfl

/-- Every comment has a mark that is no white space. -/
theorem IsComment.exists_not_isBlank (h : IsComment cs) : ∃ c ∈ cs, isBlank c = false := by
  cases h with
  | slashes | block => exact ⟨'/', List.mem_cons_self, rfl⟩
  | hash => exact ⟨'#', List.mem_cons_self, rfl⟩

/-- A gap is white space just if there is no comment in it. -/
theorem IsFiller.forall_isBlank_iff (h : IsFiller gap) :
    (∀ c ∈ gap, isBlank c = true) ↔ IsGap gap := by
  refine ⟨fun hblank => ?_, fun hgap c hc => isBlank_of_isGap (hgap c hc)⟩
  induction h with
  | nil => exact isGap_nil
  | blank hc _ ih =>
    obtain ⟨-, hlater⟩ := List.forall_mem_cons.mp hblank
    exact List.forall_mem_cons.mpr ⟨hc, ih hlater⟩
  | comment hcomment _ _ =>
    obtain ⟨c, hc, hmark⟩ := hcomment.exists_not_isBlank
    rw [hblank c (List.mem_append_left _ hc)] at hmark
    cases hmark

/-- Trimming leaves nothing of what is skipped if that is blank, and something if there is a comment
in it. -/
theorem trimEnd_gap_eq_nil_iff (h : Tokenized [] gap) : trimEnd gap = [] ↔ IsGap gap := by
  rw [trimEnd_eq_nil_iff]
  cases h with
  | nil hfiller =>
    have hline : isBlank '\n' = true ∧ Lexer.isGap '\n' = true := by decide
    -- the end of the last line is a blank itself
    have hiff := hfiller.forall_isBlank_iff
    simpa only [IsGap, List.forall_mem_append, List.forall_mem_singleton, hline, and_true]
      using hiff

end Trimming

/-! ### Between two tokens -/

namespace Lexer

variable {text : List Char} {p : Nat}

/-- Nothing but blanks and comments stands before the first token that is found. -/
theorem tokenized_first_gap (hp : p ≤ text.length)
    (h : (scanFrom p (text.drop p)).complete = true) :
    p ≤ nextStart text (scanFrom p (text.drop p)).lexemes ∧
      Tokenized [] (slice text p (nextStart text (scanFrom p (text.drop p)).lexemes)) := by
  obtain ⟨gap, hgap, heq⟩ := exists_skipped (text.drop p)
  have hslice : slice text p (p + gap.length) = gap := by
    rw [slice, heq, Nat.add_sub_cancel_left, List.take_left]
  have hnext : nextStart text (scanFrom p (text.drop p)).lexemes = p + gap.length := by
    cases htoken : token? (dropLayout (text.drop p)) with
    | none =>
      rw [scanFrom_of_none htoken] at h ⊢
      rw [List.isEmpty_iff.mp h, List.append_nil] at heq
      rw [← heq, List.length_drop]
      exact (Nat.add_sub_of_le hp).symm
    | some taken =>
      rw [scanFrom_of_some htoken, length_sub_of_eq_append heq]
      rfl
  rw [hnext, hslice]
  exact ⟨Nat.le_add_right _ _, hgap⟩

/-- Scanning goes on behind the first token as if the text had been scanned from there. -/
theorem scanFrom_stop {l : Lexeme} {ls : List Lexeme} (hp : p ≤ text.length)
    (h : (scanFrom p (text.drop p)).lexemes = l :: ls) :
    l.stop ≤ text.length ∧ (scanFrom l.stop (text.drop l.stop)).lexemes = ls ∧
      (scanFrom l.stop (text.drop l.stop)).complete = (scanFrom p (text.drop p)).complete := by
  have hstop : l.stop ≤ text.length := by
    obtain ⟨hspelled, -, -, -⟩ := spelled_scanFrom hp
    exact (hspelled l (h ▸ List.mem_cons_self)).1.stop_le_length
  cases htoken : token? (dropLayout (text.drop p)) with
  | none =>
    rw [scanFrom_of_none htoken] at h
    cases h
  | some taken =>
    obtain ⟨t, rest⟩ := taken
    obtain ⟨gap, -, hgap⟩ := exists_gap htoken
    obtain ⟨-, hspelled⟩ := genuine_of_token? htoken
    have hbody : dropLayout (text.drop p) = text.drop (p + gap.length) :=
      eq_drop_of_drop_eq_append hgap
    have hhere : text.drop (p + gap.length) = t.spelling ++ rest := hbody ▸ hspelled
    have hrest : rest = text.drop (p + gap.length + t.spelling.length) :=
      eq_drop_of_drop_eq_append hhere
    rw [scanFrom_of_some htoken, length_sub_of_eq_append hgap, length_sub_of_eq_append hspelled,
      hrest] at h ⊢
    obtain ⟨rfl, rfl⟩ := List.cons.inj h
    exact ⟨hstop, rfl, rfl⟩

/-- Nothing but blanks and comments stands between a token and the next one. -/
theorem tokenized_gap {before after : List Lexeme} {l : Lexeme} (hp : p ≤ text.length)
    (hcomplete : (scanFrom p (text.drop p)).complete = true)
    (h : (scanFrom p (text.drop p)).lexemes = before ++ l :: after) :
    l.stop ≤ nextStart text after ∧ Tokenized [] (slice text l.stop (nextStart text after)) := by
  induction before generalizing p with
  | nil =>
    obtain ⟨hstop, rfl, hrest⟩ := scanFrom_stop hp h
    exact tokenized_first_gap hstop (hrest.trans hcomplete)
  | cons m before ih =>
    obtain ⟨hstop, hlater, hrest⟩ := scanFrom_stop hp h
    exact ih hstop (hrest.trans hcomplete) hlater

end Lexer

/-! ### What is quoted -/

theorem slice_append {text : List Char} {p q s : Nat} (hpq : p ≤ q) (hqs : q ≤ s) :
    slice text p s = slice text p q ++ slice text q s := by
  have hlength : s - p = (q - p) + (s - q) := by omega
  have hdrop : (text.drop p).drop (q - p) = text.drop q := by
    rw [List.drop_drop, Nat.add_sub_of_le hpq]
  rw [slice, slice, slice, hlength, List.take_add, hdrop]

/-- A token is what the text has where it stands. -/
theorem Lexeme.SpelledIn.slice_eq {text : List Char} {l : Lexeme} (h : l.SpelledIn text) :
    slice text l.start l.stop = l.token.spelling := by
  rw [slice, h.stop_eq, Nat.add_sub_cancel_left]
  exact (List.prefix_iff_eq_take.mp h.spelling_prefix).symm

theorem isBlank_of_isDigit {c : Char} (h : c.isDigit = true) : isBlank c = false := by
  refine isBlank_of_isWordChar ?_
  rw [Lexer.isWordChar, Char.isAlphanum, h, Bool.or_true, Bool.true_or]

theorem IsDigits.exists_getLast? {cs : List Char} (h : IsDigits cs) :
    ∃ c, cs.getLast? = some c ∧ isBlank c = false := by
  cases hlast : cs.getLast? with
  | none =>
    rw [List.getLast?_eq_none_iff.mp hlast] at h
    exact h.elim
  | some c =>
    cases cs with
    | nil => cases hlast
    | cons d cs =>
      have hall : ∀ e ∈ d :: cs, e.isDigit = true :=
        List.forall_mem_cons.mpr ⟨h.1, List.all_eq_true.mp h.2⟩
      exact ⟨c, rfl, isBlank_of_isDigit (hall c (List.mem_of_getLast? hlast))⟩

/-- No token ends with white space. -/
theorem Token.Genuine.exists_getLast? {t : Token} (h : t.Genuine) :
    ∃ c, t.spelling.getLast? = some c ∧ isBlank c = false := by
  cases t with
  | word name => exact h.1.exists_getLast?
  | number digits =>
    change IsNumber digits.toList at h
    unfold IsNumber at h
    split at h
    · next cs hcs =>
      obtain ⟨c, hc, hblank⟩ := h.exists_getLast?
      refine ⟨c, ?_, hblank⟩
      rw [Token.spelling, hcs, List.getLast?_cons, hc]
      rfl
    · exact h.exists_getLast?
  | repeatWord | ifWord | elseWord => exact ⟨_, rfl, by decide⟩
  | openParen | closeParen | openBrace | closeBrace | semicolon | bang => exact ⟨_, rfl, by decide⟩

namespace CallSite

variable {text : List Char} {ls : List Lexeme} (site : CallSite ls)

/-- The call and nothing else. -/
def written (text : List Char) : List Char := slice text site.name.start site.last.stop

/-- What stands between the call and the next token, or the end of the text. -/
def gap (text : List Char) : List Char := slice text site.last.stop (nextStart text site.after)

/-- A call does not end before its name. -/
theorem start_le_last_start (hspelled : ∀ l ∈ ls, l.SpelledIn text)
    (horder : ls.Pairwise fun l m => l.stop ≤ m.start) : site.name.start ≤ site.last.start := by
  by_cases hoperand : site.operand = []
  · rw [site.last_of_alone hoperand]
  · have hlast := List.mem_append_left site.after (site.last_mem_operand hoperand)
    exact (hspelled _ site.name_mem).start_lt_stop.le.trans (site.stop_le_start horder hlast)

/-- A call begins with its name and ends with its last token. -/
theorem exists_written_eq (hspelled : ∀ l ∈ ls, l.SpelledIn text)
    (horder : ls.Pairwise fun l m => l.stop ≤ m.start) :
    site.name.start ≤ site.last.stop ∧
      ∃ before, site.written text = before ++ site.last.token.spelling := by
  have hlast := hspelled _ site.last_mem
  have hstart := site.start_le_last_start hspelled horder
  have hstop := hlast.start_lt_stop.le
  refine ⟨hstart.trans hstop, slice text site.name.start site.last.start, ?_⟩
  rw [written, slice_append hstart hstop, hlast.slice_eq]

/-- Trimming spares the call itself: only what is taken in behind a name alone is trimmed. -/
theorem trimEnd_slice_eq (hspelled : ∀ l ∈ ls, l.SpelledIn text)
    (horder : ls.Pairwise fun l m => l.stop ≤ m.start)
    (hnext : site.last.stop ≤ nextStart text site.after) :
    trimEnd (slice text site.name.start (site.limit text)) =
      if site.operand = [] then site.written text ++ trimEnd (site.gap text)
      else site.written text := by
  obtain ⟨hstart, before, hwritten⟩ := site.exists_written_eq hspelled horder
  obtain ⟨c, hc, hblank⟩ := (hspelled _ site.last_mem).genuine.exists_getLast?
  have hend : (site.written text).getLast? = some c := by
    rw [hwritten, List.getLast?_append, hc]
    rfl
  unfold limit
  split
  · rw [slice_append hstart hnext]
    exact trimEnd_append hend hblank _
  · have hnil : trimEnd [] = [] := rfl
    have htrim := trimEnd_append hend hblank []
    rwa [hnil, List.append_nil] at htrim

end CallSite

/-- What an error quotes of the program. -/
def ProgramError.fragment? : ProgramError → Option String
  | unrecognized fragment _ | argument fragment _ _ => some fragment
  | overBudget .. => none

theorem fragment?_of_positive {digits fragment : String} {line : Nat} {e : ProgramError}
    (h : positive digits fragment line = .error e) : e.fragment? = some fragment := by
  simp only [positive] at h
  split at h
  · cases h
    rfl
  · split at h <;> cases h
    rfl

theorem fragment?_of_checkAtMost {n : Nat} {fragment : String} {line : Nat} {e : ProgramError}
    (h : checkAtMost n fragment line = .error e) : e.fragment? = some fragment := by
  unfold checkAtMost at h
  split at h <;> cases h
  rfl

theorem fragment?_of_charge {m : Meter} {steps : Nat} {e : ProgramError}
    (h : m.charge steps = .error e) : e.fragment? = none := by
  simp only [Meter.charge] at h
  split at h <;> cases h
  rfl

theorem bind_eq_error_iff {ε α β : Type} {x : Except ε α} {f : α → Except ε β} {e : ε} :
    (x >>= f) = .error e ↔ x = .error e ∨ ∃ a, x = .ok a ∧ f a = .error e := by
  cases x with
  | error e => simp [bind, Except.bind]
  | ok a => simp [bind, Except.bind]

/-- Whatever is wrong with a call, but for its cost, is told by quoting the call. -/
theorem fragment?_of_compileCall {name quoted : String} {argument : Option String} {l : Location}
    {m : Meter} {e : ProgramError} (h : compileCall name argument quoted l m = .error e) :
    ∀ fragment ∈ e.fragment?, fragment = quoted := by
  have hquoted : e.fragment? = none ∨ e.fragment? = some quoted := by
    unfold compileCall at h
    cases hverb : Verb.ofName? name with
    | none =>
      rw [hverb] at h
      cases h
      exact .inr rfl
    | some verb =>
      rw [hverb] at h
      cases verb with
      | move heading =>
        cases argument with
        | none =>
          cases h
          exact .inr rfl
        | some digits =>
          simp only [bind_eq_error_iff] at h
          obtain hpositive | ⟨n, -, hcharge | ⟨m', -, hmost | ⟨_, -, hpure⟩⟩⟩ := h
          · exact .inr (fragment?_of_positive hpositive)
          · exact .inl (fragment?_of_charge hcharge)
          · exact .inr (fragment?_of_checkAtMost hmost)
          · cases hpure
      | plain action =>
        cases argument with
        | none =>
          simp only [bind_eq_error_iff] at h
          obtain hcharge | ⟨m', -, hpure⟩ := h
          · exact .inl (fragment?_of_charge hcharge)
          · cases hpure
        | some digits =>
          cases h
          exact .inr rfl
  intro fragment hfragment
  rcases hquoted with hnone | hsome
  · rw [hnone] at hfragment
    cases hfragment
  · rw [hsome] at hfragment
    exact (Option.some.inj hfragment).symm

/-- Every call of a program stands among the tokens of its text, and errors of the call quote what
the tree has as its text. Nothing but blanks and comments stands between the last token of the call
and the next one, or the end of the text. What is quoted is the call, up to the end of its last
token, if that belongs to an argument; and behind a name alone it is also what stands there up to
the next token, less the white space at its end. So it is the call and nothing else if and only if
the call has an argument or parentheses, or no comment stands between its name and the next
token. -/
theorem quoted_eq_written_iff {source : String} {ss : List Statement}
    (h : parseStatements source = .ok ss) {name quoted : String} {argument : Option String}
    {location : Location} (hcall : .call name argument quoted location ∈ nodesOf ss) :
    ∃ site : CallSite (Lexer.scan source.toList).lexemes,
      site.Shows source.toList name argument quoted location ∧
      Tokenized [] (site.gap source.toList) ∧
      site.last.token.spelling <:+ site.written source.toList ∧
      quoted.toList = (if site.operand = [] then
        site.written source.toList ++ trimEnd (site.gap source.toList)
        else site.written source.toList) ∧
      (quoted.toList = site.written source.toList ↔
        site.operand ≠ [] ∨ IsGap (site.gap source.toList)) ∧
      ∀ m e, compileCall name argument quoted location m = .error e →
        ∀ fragment ∈ e.fragment?, fragment = quoted := by
  obtain ⟨hcomplete, hstand⟩ := standsAt_of_parse h
  obtain ⟨-, -, site, -, hshows⟩ := exists_standsAt_of_mem hstand hcall
  obtain ⟨before, hlexemes⟩ := site.exists_eq_append_last
  obtain ⟨hspelled, horder, -, -⟩ := Lexer.spelled_scanFrom (Nat.zero_le source.toList.length)
  obtain ⟨hnext, hgap⟩ := Lexer.tokenized_gap (Nat.zero_le source.toList.length) hcomplete hlexemes
  rw [List.drop_zero] at hspelled horder
  have hquoted := site.trimEnd_slice_eq (fun l hl => (hspelled l hl).1) horder hnext
  obtain ⟨-, start, hwritten⟩ := site.exists_written_eq (fun l hl => (hspelled l hl).1) horder
  have hquoted : quoted.toList = _ := (congrArg String.toList hshows.quoted_eq).trans
    (String.toList_ofList.trans hquoted)
  refine ⟨site, hshows, hgap, ⟨start, hwritten.symm⟩, hquoted, ?_, fun m e he =>
    fragment?_of_compileCall he⟩
  have hblank : trimEnd (site.gap source.toList) = [] ↔ IsGap (site.gap source.toList) :=
    trimEnd_gap_eq_nil_iff hgap
  rw [hquoted, ← hblank]
  split
  · next halone => simp [halone]
  · next hoperand => simp [hoperand]

/-- A call whose parentheses stand apart from its name behind a comment is quoted as it is written,
without the comment that follows it; a name with a comment behind it is quoted with the comment. -/
theorem quoted_eq_written_iff_in_block :
    let source := "repeat 2 \x7b jump /* up */ (3) // high\n hop # once \n skip \t \x7d"
    let jump : Statement := .call "jump" (some "3") "jump /* up */ (3)" ⟨1, 12⟩
    let hop : Statement := .call "hop" none "hop # once" ⟨2, 2⟩
    let skip : Statement := .call "skip" none "skip" ⟨3, 2⟩
    let ss : List Statement := [.loop "2" [jump, hop, skip] ⟨1, 1⟩]
    parseStatements source = .ok ss ∧ jump ∈ nodesOf ss ∧ hop ∈ nodesOf ss ∧
      (∃ site : CallSite (Lexer.scan source.toList).lexemes,
        site.Shows source.toList "jump" (some "3") "jump /* up */ (3)" ⟨1, 12⟩ ∧
        site.operand ≠ [] ∧ "jump /* up */ (3)".toList = site.written source.toList) ∧
      ∃ site : CallSite (Lexer.scan source.toList).lexemes,
        site.Shows source.toList "hop" none "hop # once" ⟨2, 2⟩ ∧
        Tokenized [] (site.gap source.toList) ∧
        site.last.token.spelling <:+ site.written source.toList ∧
        "hop # once".toList = (if site.operand = [] then
          site.written source.toList ++ trimEnd (site.gap source.toList)
          else site.written source.toList) ∧
        ("hop # once".toList = site.written source.toList ↔
          site.operand ≠ [] ∨ IsGap (site.gap source.toList)) ∧
        ∀ m e, compileCall "hop" none "hop # once" ⟨2, 2⟩ m = .error e →
          ∀ fragment ∈ e.fragment?, fragment = "hop # once" := by
  intro source jump hop skip ss
  have h : parseStatements source = .ok ss := by decide +kernel
  have hjump : jump ∈ nodesOf ss := by decide
  have hhop : hop ∈ nodesOf ss := by decide
  refine ⟨h, hjump, hhop, ?_, quoted_eq_written_iff h hhop⟩
  obtain ⟨site, hshows, -, -, -, hwritten, -⟩ := quoted_eq_written_iff h hjump
  have hoperand : site.operand ≠ [] := by
    intro hnil
    -- a call without the tokens of an argument has no number
    have hform := site.operand_eq
    have hnumber := hshows.number_eq
    rw [hnil] at hform
    cases hargument : site.form <;> rw [hargument] at hform hnumber <;> cases hform
    cases hnumber
  exact ⟨site, hshows, hoperand, hwritten.mpr (.inl hoperand)⟩

/-- A comment behind a name alone is quoted with it. -/
theorem not_quoted_eq_written :
    ¬ ∀ (source : String) (ss : List Statement) (name quoted : String) (argument : Option String)
        (location : Location), parseStatements source = .ok ss →
      .call name argument quoted location ∈ nodesOf ss →
        ∃ site : CallSite (Lexer.scan source.toList).lexemes,
          site.Shows source.toList name argument quoted location ∧
          quoted.toList = site.written source.toList := by
  intro hall
  let call : Statement := .call "jump" none "jump // hi" ⟨1, 1⟩
  obtain ⟨site, -, hquoted⟩ := hall "jump // hi" [call] "jump" "jump // hi" none ⟨1, 1⟩
    (by decide +kernel) (by decide)
  -- the text has no token but the name, so the name is the call
  have honly : ∀ l ∈ (Lexer.scan "jump // hi".toList).lexemes, l = ⟨.word "jump", 0, 4⟩ := by
    decide +kernel
  rw [CallSite.written, honly _ site.name_mem, honly _ site.last_mem] at hquoted
  exact absurd hquoted (by decide)

end RobotPuzzle
