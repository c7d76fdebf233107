import RobotPuzzle.Proofs.Spelling

/-!
# Writing programs

Every list of commands can be written as the text of a program: one statement for each command,
with its verb and its number, and blocks in braces. The text is also described by its tokens, of
which it is one layout among many.

## Main definitions

* `Action.verb`, `Action.number?` — how a call names its action
* `Command.text`, `textOf` — the text of commands
* `Command.tokens`, `tokensOf` — its tokens

## Main results

* `proper_of_mem_tokensOf` — the tokens of commands are proper
* `layout_textOf` — the text of commands is a layout of their tokens
-/

namespace RobotPuzzle

/-- The verb that an action is written with. -/
def Action.verb : Action → String
  | .move .forward _ => "forward"
  | .move .backward _ => "backward"
  | .turnLeft => "turnLeft"
  | .turnRight => "turnRight"
  | .collect => "collect"
  | .extinguish => "extinguish"
  | .cover => "cover"

/-- The number that is written after the verb of a move. -/
def Action.number? : Action → Option String
  | .move _ cells => some (toString cells)
  | _ => none

/-- The text of an action. -/
def Action.text (a : Action) : String :=
  match a.number? with
  | some digits => a.verb ++ " " ++ digits
  | none => a.verb

mutual

/-- The text of a command: one statement. -/
def Command.text : Command → String
  | .act a => a.text
  | .loop count body => "repeat " ++ toString count ++ " \x7b " ++ textOf body ++ "\x7d"
  | .branch negated thenDo elseDo =>
    "if " ++ (if negated then "!" else "") ++ "onFire \x7b " ++ textOf thenDo ++
      "\x7d else \x7b " ++ textOf elseDo ++ "\x7d"

/-- The text of commands: their statements in order, each with a blank after it. -/
def textOf : List Command → String
  | [] => ""
  | c :: cs => c.text ++ " " ++ textOf cs

end

/-- The tokens of an action. -/
def Action.tokens (a : Action) : List Token :=
  match a.number? with
  | some digits => [.word a.verb, .number digits]
  | none => [.word a.verb]

mutual

/-- The tokens of a command. -/
def Command.tokens : Command → List Token
  | .act a => a.tokens
  | .loop count body =>
    .repeatWord :: .number (toString count) :: .openBrace :: (tokensOf body ++ [.closeBrace])
  | .branch negated thenDo elseDo =>
    .ifWord :: ((if negated then [.bang] else []) ++ .word "onFire" :: .openBrace ::
      (tokensOf thenDo ++ .closeBrace :: .elseWord :: .openBrace ::
        (tokensOf elseDo ++ [.closeBrace])))

/-- The tokens of commands in order. -/
def tokensOf : List Command → List Token
  | [] => []
  | c :: cs => c.tokens ++ tokensOf cs

end

example : textOf [.loop 2 [.act (.move .forward 3)], .branch true [.act .collect] []] =
    "repeat 2 \x7b forward 3 \x7d if !onFire \x7b collect \x7d else \x7b \x7d " := by decide

/-! ### The tokens are proper -/

theorem Action.proper_verb (a : Action) : (Token.word a.verb).Proper := by
  cases a with
  | move heading cells =>
    cases heading with
    | forward =>
      change (Token.word "forward").Proper
      exact ⟨⟨rfl, rfl⟩, rfl⟩
    | backward =>
      change (Token.word "backward").Proper
      exact ⟨⟨rfl, rfl⟩, rfl⟩
  | turnLeft => exact ⟨⟨rfl, rfl⟩, rfl⟩
  | turnRight => exact ⟨⟨rfl, rfl⟩, rfl⟩
  | collect => exact ⟨⟨rfl, rfl⟩, rfl⟩
  | extinguish => exact ⟨⟨rfl, rfl⟩, rfl⟩
  | cover => exact ⟨⟨rfl, rfl⟩, rfl⟩

theorem proper_onFire : (Token.word "onFire").Proper := ⟨⟨rfl, rfl⟩, rfl⟩

theorem Action.number?_eq_some {a : Action} {digits : String} (h : a.number? = some digits) :
    ∃ n : Nat, digits = toString n := by
  cases a with
  | move heading cells => exact ⟨cells, (Option.some.inj h).symm⟩
  | _ => cases h

theorem Action.proper_of_mem_tokens {a : Action} {t : Token} (h : t ∈ a.tokens) : t.Proper := by
  unfold Action.tokens at h
  split at h
  · next digits hdigits =>
    obtain ⟨n, rfl⟩ := Action.number?_eq_some hdigits
    simp only [List.mem_cons, List.not_mem_nil, or_false] at h
    rcases h with rfl | rfl
    · exact a.proper_verb
    · exact proper_number n
  · obtain rfl := List.mem_singleton.mp h
    exact a.proper_verb

mutual

theorem proper_of_mem_tokens (c : Command) {t : Token} (h : t ∈ c.tokens) : t.Proper := by
  cases c with
  | act a => exact Action.proper_of_mem_tokens h
  | loop count body =>
    simp only [Command.tokens, List.mem_cons, List.mem_append, List.not_mem_nil, or_false] at h
    rcases h with rfl | rfl | rfl | h | rfl
    · trivial
    · exact proper_number count
    · trivial
    · exact proper_of_mem_tokensOf body h
    · trivial
  | branch negated thenDo elseDo =>
    simp only [Command.tokens, List.mem_cons, List.mem_append, List.not_mem_nil, or_false] at h
    rcases h with rfl | h | rfl | rfl | h | rfl | rfl | rfl | h | rfl
    · trivial
    · split at h
      · obtain rfl := List.mem_singleton.mp h
        trivial
      · cases h
    · exact proper_onFire
    · trivial
    · exact proper_of_mem_tokensOf thenDo h
    · trivial
    · trivial
    · trivial
    · exact proper_of_mem_tokensOf elseDo h
    · trivial

/-- The tokens of commands are proper: their names are no reserved words. -/
theorem proper_of_mem_tokensOf (cs : List Command) {t : Token} (h : t ∈ tokensOf cs) :
    t.Proper := by
  cases cs with
  | nil => cases h
  | cons c cs =>
    rcases List.mem_append.mp h with h | h
    · exact proper_of_mem_tokens c h
    · exact proper_of_mem_tokensOf cs h

end

/-! ### The text is a layout -/

theorem endsBefore_blank (t : Token) (rest : List Char) : t.EndsBefore (' ' :: rest) := by
  intro c hc
  obtain rfl := Option.some.inj hc
  cases t <;> rfl

section Layout

variable {ts : List Token} {rest : List Char}

/-- A token with a blank after it. -/
theorem Layout.spaced (t : Token) (h : Layout ts rest) :
    Layout (t :: ts) (t.spelling ++ ' ' :: rest) :=
  .token (endsBefore_blank t rest) h.blank

theorem layout_action (a : Action) (h : Layout ts rest) :
    Layout (a.tokens ++ ts) (a.text.toList ++ ' ' :: rest) := by
  unfold Action.tokens Action.text
  split
  · next digits hdigits =>
    have hnumber : Layout (.number digits :: ts) (digits.toList ++ ' ' :: rest) := h.spaced _
    have hverb := hnumber.spaced (.word a.verb)
    simpa [Token.spelling] using hverb
  · exact h.spaced (.word a.verb)

mutual

theorem layout_text (c : Command) {ts : List Token} {rest : List Char} (h : Layout ts rest) :
    Layout (c.tokens ++ ts) (c.text.toList ++ ' ' :: rest) := by
  have hclose : Layout (.closeBrace :: ts) ('\x7d' :: ' ' :: rest) := h.spaced .closeBrace
  cases c with
  | act a => exact layout_action a h
  | loop count body =>
    have hopen := (layout_textOf body hclose).spaced .openBrace
    have hcount := hopen.spaced (.number (toString count))
    have hword := hcount.spaced .repeatWord
    simpa [Command.tokens, Command.text, Token.spelling] using hword
  | branch negated thenDo elseDo =>
    have helse := ((layout_textOf elseDo hclose).spaced .openBrace).spaced .elseWord
    have hthen := (layout_textOf thenDo (helse.spaced .closeBrace)).spaced .openBrace
    have hsensor := hthen.spaced (.word "onFire")
    cases negated with
    | false =>
      have hword := hsensor.spaced .ifWord
      simpa [Command.tokens, Command.text, Token.spelling] using hword
    | true =>
      -- no blank is needed after a mark
      have hbang := Layout.token (t := .bang) (fun _ _ => rfl) hsensor
      have hword := hbang.spaced .ifWord
      simpa [Command.tokens, Command.text, Token.spelling] using hword

theorem layout_textOf (cs : List Command) {ts : List Token} {rest : List Char}
    (h : Layout ts rest) : Layout (tokensOf cs ++ ts) ((textOf cs).toList ++ rest) := by
  cases cs with
  | nil => simpa [tokensOf, textOf] using h
  | cons c cs =>
    have hfirst := layout_text c (layout_textOf cs h)
    simpa [tokensOf, textOf] using hfirst

end

end Layout

/-- The text of commands is a layout of their tokens. -/
theorem layout_tokensOf (cs : List Command) : Layout (tokensOf cs) (textOf cs).toList := by
  simpa using layout_textOf cs (.nil isGap_nil)

end RobotPuzzle
