import RobotPuzzle.Proofs.Advancing

/-!
# Trying the rules of a grammar

A grammar can be read as rules that are tried in order. Of several ways to go on, the first one that
works is taken; what may be left out is left out if it fails, and what may be repeated is repeated
until it fails. So many rules are tried in vain, also where a text is what the grammar asks for.
What a mistake in a text is blamed on depends on them: on the rule that failed furthest down.

## Main definitions

* `Rule`, `Pattern`, `Rule.body` — the grammar as rules that are tried in order
* `Tries` — trying a pattern, with the places of the rules that failed
* `Misses` — a pattern fails, and no rule gets past the first token
* `Furthest` — the largest of some offsets

## Main results

* `Tries.unique` — trying a pattern comes out in one way
* `Tries.start_le` — no rule fails before the first token
* `consumes_statement` — a statement takes some tokens
-/

namespace RobotPuzzle

/-! ### The grammar -/

/-- The rules of the grammar that have names. `ending` is the end of the text. -/
inductive Rule
  | block | call | argument | loop | branch | condition | negation | query
  | name | number | repeatWord | ifWord | elseWord | ending
  deriving DecidableEq, Repr

/-- What a rule looks for. -/
inductive Pattern
  | token (p : Token → Bool)
  | ending
  | rule (r : Rule)
  | seq (a b : Pattern)
  /-- The second pattern is tried if the first one fails. -/
  | choice (a b : Pattern)
  | optional (a : Pattern)
  /-- As often as it works. -/
  | many (a : Pattern)

namespace Pattern

/-- A mark or a reserved word. -/
def mark (t : Token) : Pattern := token (· == t)

/-- A pattern in parentheses. -/
def grouped (a : Pattern) : Pattern := seq (mark .openParen) (seq a (mark .closeParen))

/-- Parentheses with nothing between them. -/
def parens : Pattern := seq (mark .openParen) (mark .closeParen)

/-- A statement without the semicolons behind it. -/
def bareStatement : Pattern := choice (rule .loop) (choice (rule .branch) (rule .call))

/-- A statement. -/
def statement : Pattern := seq bareStatement (many (mark .semicolon))

/-- The count of a loop. -/
def count : Pattern := choice (grouped (rule .number)) (rule .number)

/-- The block behind `else`, or a further branch. -/
def otherwise : Pattern := seq (rule .elseWord) (choice (rule .branch) (rule .block))

/-- A branch behind its first word. -/
def branchRest : Pattern := seq (rule .condition) (seq (rule .block) (optional otherwise))

/-- A whole program. Its rule begins where the text begins, and no other rule fails before that, so
it is not counted among the rules that fail. -/
def program : Pattern := seq (many statement) (rule .ending)

end Pattern

open Pattern in
/-- What each rule looks for. -/
def Rule.body : Rule → Pattern
  | block => seq (mark .openBrace) (seq (many statement) (mark .closeBrace))
  | call => seq (rule .name) (optional (rule .argument))
  | argument => choice (grouped (optional (rule .number))) (rule .number)
  | loop => seq (rule .repeatWord) (seq count (rule .block))
  | branch => seq (rule .ifWord) branchRest
  -- a negation is looked for first, before every sensor
  | condition =>
    choice (seq (rule .negation) (rule .condition))
      (choice (grouped (rule .condition)) (rule .query))
  | negation => mark .bang
  | query => seq (rule .name) (optional parens)
  | name => token Token.isName
  | number => token Token.isNumber
  | repeatWord => mark .repeatWord
  | ifWord => mark .ifWord
  | elseWord => mark .elseWord
  | ending => .ending

/-! ### Trying the rules -/

namespace Scan

/-- Where the first of the tokens that are left begins, or where scanning ended. -/
def startOf (s : Scan) : List Lexeme → Nat
  | [] => s.stop
  | l :: _ => l.start

/-- The tokens that are left stand in their order. -/
def Ordered (s : Scan) : List Lexeme → Prop
  | [] => True
  | l :: ls => l.start ≤ s.startOf ls ∧ s.Ordered ls

variable {s : Scan} {ls ms : List Lexeme}

theorem Ordered.of_suffix (h : s.Ordered ls) (hms : ms <:+ ls) :
    s.Ordered ms ∧ s.startOf ls ≤ s.startOf ms := by
  induction ls with
  | nil =>
    obtain rfl := List.suffix_nil.mp hms
    exact ⟨h, Nat.le_refl _⟩
  | cons l ls ih =>
    rcases List.suffix_cons_iff.mp hms with rfl | hms
    · exact ⟨h, Nat.le_refl _⟩
    · obtain ⟨hordered, hle⟩ := ih h.2 hms
      exact ⟨hordered, Nat.le_trans h.1 hle⟩

end Scan

/-- Trying a pattern on the tokens that are left comes out in one way: it takes some of them and
leaves others, or it fails. On the way, rules fail where the offsets `fs` are. -/
inductive Tries (s : Scan) : Pattern → List Lexeme → Option (List Lexeme) → List Nat → Prop
  | token {p : Token → Bool} {l : Lexeme} {ls : List Lexeme} (found : p l.token = true) :
    Tries s (.token p) (l :: ls) (some ls) []
  | noToken {p : Token → Bool} {ls : List Lexeme}
      (missing : ∀ l ∈ ls.head?, p l.token = false) : Tries s (.token p) ls none []
  | ending (complete : s.complete = true) : Tries s .ending [] (some []) []
  | noEnding {ls : List Lexeme} (more : ls = [] → s.complete = false) : Tries s .ending ls none []
  | rule {r : Rule} {ls ms : List Lexeme} {fs : List Nat} :
    Tries s r.body ls (some ms) fs → Tries s (.rule r) ls (some ms) fs
  -- no other step adds an offset
  | failedRule {r : Rule} {ls : List Lexeme} {fs : List Nat} :
    Tries s r.body ls none fs → Tries s (.rule r) ls none (s.startOf ls :: fs)
  | seq {a b : Pattern} {ls ms : List Lexeme} {o : Option (List Lexeme)} {fs gs : List Nat} :
    Tries s a ls (some ms) fs → Tries s b ms o gs → Tries s (.seq a b) ls o (fs ++ gs)
  | failedSeq {a b : Pattern} {ls : List Lexeme} {fs : List Nat} :
    Tries s a ls none fs → Tries s (.seq a b) ls none fs
  | first {a b : Pattern} {ls ms : List Lexeme} {fs : List Nat} :
    Tries s a ls (some ms) fs → Tries s (.choice a b) ls (some ms) fs
  | second {a b : Pattern} {ls : List Lexeme} {o : Option (List Lexeme)} {fs gs : List Nat} :
    Tries s a ls none fs → Tries s b ls o gs → Tries s (.choice a b) ls o (fs ++ gs)
  | present {a : Pattern} {ls ms : List Lexeme} {fs : List Nat} :
    Tries s a ls (some ms) fs → Tries s (.optional a) ls (some ms) fs
  | absent {a : Pattern} {ls : List Lexeme} {fs : List Nat} :
    Tries s a ls none fs → Tries s (.optional a) ls (some ls) fs
  | more {a : Pattern} {ls ms : List Lexeme} {o : Option (List Lexeme)} {fs gs : List Nat} :
    Tries s a ls (some ms) fs → Tries s (.many a) ms o gs → Tries s (.many a) ls o (fs ++ gs)
  | enough {a : Pattern} {ls : List Lexeme} {fs : List Nat} :
    Tries s a ls none fs → Tries s (.many a) ls (some ls) fs

namespace Tries

variable {s : Scan} {e : Pattern} {ls ms : List Lexeme} {o o' : Option (List Lexeme)}
  {fs fs' : List Nat}

/-- Trying a pattern comes out in one way. -/
theorem unique (h : Tries s e ls o fs) : ∀ {o' fs'}, Tries s e ls o' fs' → o' = o ∧ fs' = fs := by
  -- another way would take a part of the pattern both to work and to fail
  induction h with
  | token found =>
    intro o' fs' h'
    cases h' with
    | token => exact ⟨rfl, rfl⟩
    | noToken missing => simp [found] at missing
  | noToken missing =>
    intro o' fs' h'
    cases h' with
    | token found => simp [found] at missing
    | noToken => exact ⟨rfl, rfl⟩
  | ending complete =>
    intro o' fs' h'
    cases h' with
    | ending => exact ⟨rfl, rfl⟩
    | noEnding more => simp [complete] at more
  | noEnding more =>
    intro o' fs' h'
    cases h' with
    | ending complete => simp [complete] at more
    | noEnding => exact ⟨rfl, rfl⟩
  | rule _ ih =>
    intro o' fs' h'
    cases h' with
    | rule h' => exact ih h'
    | failedRule h' => cases (ih h').1
  | failedRule _ ih =>
    intro o' fs' h'
    cases h' with
    | rule h' => cases (ih h').1
    | failedRule h' => exact ⟨rfl, congrArg _ (ih h').2⟩
  | seq _ _ ih₁ ih₂ =>
    intro o' fs' h'
    cases h' with
    | seq h₁ h₂ =>
      obtain ⟨heq, rfl⟩ := ih₁ h₁
      obtain rfl := Option.some.inj heq
      obtain ⟨rfl, rfl⟩ := ih₂ h₂
      exact ⟨rfl, rfl⟩
    | failedSeq h' => cases (ih₁ h').1
  | failedSeq _ ih =>
    intro o' fs' h'
    cases h' with
    | seq h₁ => cases (ih h₁).1
    | failedSeq h' => exact ih h'
  | first _ ih =>
    intro o' fs' h'
    cases h' with
    | first h' => exact ih h'
    | second h' => cases (ih h').1
  | second _ _ ih₁ ih₂ =>
    intro o' fs' h'
    cases h' with
    | first h' => cases (ih₁ h').1
    | second h₁ h₂ =>
      obtain ⟨-, rfl⟩ := ih₁ h₁
      obtain ⟨rfl, rfl⟩ := ih₂ h₂
      exact ⟨rfl, rfl⟩
  | present _ ih =>
    intro o' fs' h'
    cases h' with
    | present h' => exact ih h'
    | absent h' => cases (ih h').1
  | absent _ ih =>
    intro o' fs' h'
    cases h' with
    | present h' => cases (ih h').1
    | absent h' => exact ⟨rfl, (ih h').2⟩
  | more _ _ ih₁ ih₂ =>
    intro o' fs' h'
    cases h' with
    | more h₁ h₂ =>
      obtain ⟨heq, rfl⟩ := ih₁ h₁
      obtain rfl := Option.some.inj heq
      obtain ⟨rfl, rfl⟩ := ih₂ h₂
      exact ⟨rfl, rfl⟩
    | enough h' => cases (ih₁ h').1
  | enough _ ih =>
    intro o' fs' h'
    cases h' with
    | more h₁ => cases (ih h₁).1
    | enough h' => exact ⟨rfl, (ih h').2⟩

/-- What is left are the last ones of the tokens. -/
theorem suffix (h : Tries s e ls o fs) : ∀ ms ∈ o, ms <:+ ls := by
  induction h with
  | token =>
    rintro ms ⟨⟩
    exact List.suffix_cons _ _
  | noToken | noEnding | failedRule | failedSeq => exact fun _ => nofun
  | ending | absent | enough =>
    rintro ms ⟨⟩
    exact List.suffix_rfl
  | rule _ ih | first _ ih | present _ ih => exact ih
  | seq _ _ ih₁ ih₂ | more _ _ ih₁ ih₂ => exact fun ms hms => (ih₂ ms hms).trans (ih₁ _ rfl)
  | second _ _ _ ih => exact ih

/-- No rule fails before the first one of the tokens. -/
theorem start_le (h : Tries s e ls o fs) (horder : s.Ordered ls) :
    ∀ f ∈ fs, s.startOf ls ≤ f := by
  induction h with
  | token | noToken | ending | noEnding => exact fun _ => nofun
  | rule _ ih | failedSeq _ ih | first _ ih | present _ ih | absent _ ih | enough _ ih =>
    exact ih horder
  | failedRule _ ih => exact List.forall_mem_cons.mpr ⟨Nat.le_refl _, ih horder⟩
  -- what comes behind the first part begins where that has left off
  | seq h₁ _ ih₁ ih₂ | more h₁ _ ih₁ ih₂ =>
    obtain ⟨horder', hle⟩ := horder.of_suffix (h₁.suffix _ rfl)
    exact List.forall_mem_append.mpr ⟨ih₁ horder, fun f hf => Nat.le_trans hle (ih₂ horder' f hf)⟩
  | second _ _ ih₁ ih₂ => exact List.forall_mem_append.mpr ⟨ih₁ horder, ih₂ horder⟩

end Tries

/-! ### Patterns that fail at once -/

/-- The first token, if there is one, is another one than the given one. -/
def Lacks (t : Token) (ls : List Lexeme) : Prop := ∀ l ∈ ls.head?, l.token ≠ t

theorem lacks_or_eq_cons (t : Token) (ls : List Lexeme) :
    Lacks t ls ∨ ∃ start stop ms, ls = ⟨t, start, stop⟩ :: ms := by
  cases ls with
  | nil => exact .inl fun _ => nofun
  | cons l ls =>
    obtain ⟨token, start, stop⟩ := l
    by_cases htoken : token = t
    · exact .inr ⟨start, stop, ls, by rw [htoken]⟩
    · refine .inl ?_
      rintro l ⟨⟩
      exact htoken


/-- The pattern fails, and no rule gets past the first token. -/
def Misses (s : Scan) (e : Pattern) (ls : List Lexeme) : Prop :=
  ∃ fs, Tries s e ls none fs ∧ ∀ f ∈ fs, f ≤ s.startOf ls

section Misses

variable {s : Scan} {a b : Pattern} {r : Rule} {ls : List Lexeme}

theorem misses_token {p : Token → Bool} (h : ∀ l ∈ ls.head?, p l.token = false) :
    Misses s (.token p) ls :=
  ⟨[], .noToken h, fun _ => nofun⟩

theorem misses_token_cons {p : Token → Bool} {l : Lexeme} (h : p l.token = false) :
    Misses s (.token p) (l :: ls) := by
  refine misses_token ?_
  rintro l ⟨⟩
  exact h

theorem lacks_number_or_eq_cons (ls : List Lexeme) :
    (∀ l ∈ ls.head?, l.token.isNumber = false) ∨
      ∃ digits start stop ms, ls = ⟨.number digits, start, stop⟩ :: ms := by
  cases ls with
  | nil => exact .inl fun _ => nofun
  | cons l ls =>
    obtain ⟨token, start, stop⟩ := l
    cases token with
    | number digits => exact .inr ⟨digits, start, stop, ls, rfl⟩
    | _ =>
      refine .inl ?_
      rintro l ⟨⟩
      rfl

theorem tries_number {digits : String} {start stop : Nat} :
    Tries s (.rule .number) (⟨.number digits, start, stop⟩ :: ls) (some ls) [] :=
  .rule (.token rfl)

theorem Lacks.tries {t : Token} (h : Lacks t ls) : Tries s (.mark t) ls none [] :=
  .noToken fun l hl => beq_false_of_ne (h l hl)

theorem misses_mark {t : Token} (h : Lacks t ls) : Misses s (.mark t) ls :=
  ⟨[], h.tries, fun _ => nofun⟩

theorem misses_ending (h : ls = [] → s.complete = false) : Misses s .ending ls :=
  ⟨[], .noEnding h, fun _ => nofun⟩

theorem Misses.rule (h : Misses s r.body ls) : Misses s (.rule r) ls := by
  obtain ⟨fs, htries, hle⟩ := h
  exact ⟨_, .failedRule htries, List.forall_mem_cons.mpr ⟨Nat.le_refl _, hle⟩⟩

theorem Misses.seq (h : Misses s a ls) : Misses s (.seq a b) ls := by
  obtain ⟨fs, htries, hle⟩ := h
  exact ⟨fs, .failedSeq htries, hle⟩

theorem Misses.choice (ha : Misses s a ls) (hb : Misses s b ls) : Misses s (.choice a b) ls := by
  obtain ⟨fs, htries, hle⟩ := ha
  obtain ⟨gs, htries', hle'⟩ := hb
  exact ⟨fs ++ gs, .second htries htries', List.forall_mem_append.mpr ⟨hle, hle'⟩⟩

end Misses

/-! ### The furthest rule that failed -/

/-- The largest of some offsets. -/
def Furthest (fs : List Nat) (b : Nat) : Prop := b ∈ fs ∧ ∀ f ∈ fs, f ≤ b

namespace Furthest

variable {fs gs : List Nat} {b c : Nat}

theorem unique (h : Furthest fs b) (h' : Furthest fs c) : c = b :=
  Nat.le_antisymm (h.2 c h'.1) (h'.2 b h.1)

theorem append_left (h : Furthest fs b) (hle : ∀ g ∈ gs, g ≤ b) : Furthest (fs ++ gs) b :=
  ⟨List.mem_append_left gs h.1, List.forall_mem_append.mpr ⟨h.2, hle⟩⟩

theorem append_right (hle : ∀ f ∈ fs, f ≤ b) (h : Furthest gs b) : Furthest (fs ++ gs) b :=
  ⟨List.mem_append_right fs h.1, List.forall_mem_append.mpr ⟨hle, h.2⟩⟩

theorem cons (h : Furthest fs b) (hle : c ≤ b) : Furthest (c :: fs) b :=
  ⟨List.mem_cons_of_mem c h.1, List.forall_mem_cons.mpr ⟨hle, h.2⟩⟩

end Furthest

theorem furthest_cons {fs : List Nat} {b : Nat} (hle : ∀ f ∈ fs, f ≤ b) : Furthest (b :: fs) b :=
  ⟨List.mem_cons_self, List.forall_mem_cons.mpr ⟨Nat.le_refl b, hle⟩⟩

/-- A rule that fails at once fails at the first token. -/
theorem Misses.furthest {s : Scan} {ls : List Lexeme} (r : Rule) (h : Misses s r.body ls) :
    ∃ fs, Tries s (.rule r) ls none fs ∧ Furthest fs (s.startOf ls) := by
  obtain ⟨fs, htries, hle⟩ := h
  exact ⟨_, .failedRule htries, furthest_cons hle⟩

/-! ### Statements take tokens -/

/-- Where the pattern works, it takes some tokens. -/
def Consumes (s : Scan) (e : Pattern) : Prop :=
  ∀ ls ms fs, Tries s e ls (some ms) fs → ms.length < ls.length

section Consumes

variable {s : Scan} {a b : Pattern} {r : Rule}

theorem consumes_token (p : Token → Bool) : Consumes s (.token p) := by
  rintro ls ms fs ⟨⟩
  exact Nat.lt_succ_self _

theorem Consumes.rule (h : Consumes s r.body) : Consumes s (.rule r) := by
  intro ls ms fs htries
  cases htries with
  | rule htries => exact h _ _ _ htries

theorem Consumes.seq (h : Consumes s a) : Consumes s (.seq a b) := by
  intro ls ms fs htries
  cases htries with
  | seq ha hb => exact Nat.lt_of_le_of_lt (hb.suffix _ rfl).length_le (h _ _ _ ha)

theorem Consumes.choice (ha : Consumes s a) (hb : Consumes s b) : Consumes s (.choice a b) := by
  intro ls ms fs htries
  cases htries with
  | first htries => exact ha _ _ _ htries
  | second _ htries => exact hb _ _ _ htries

/-- A statement takes some tokens. -/
theorem consumes_statement (s : Scan) : Consumes s .statement := by
  -- the first token of each is looked for in any case
  have hloop : Consumes s (.rule .loop) := .rule (.seq (.rule (consumes_token _)))
  have hbranch : Consumes s (.rule .branch) := .rule (.seq (.rule (consumes_token _)))
  have hcall : Consumes s (.rule .call) := .rule (.seq (.rule (consumes_token _)))
  exact .seq (.choice hloop (.choice hbranch hcall))

end Consumes

end RobotPuzzle
