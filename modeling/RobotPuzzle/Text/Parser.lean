/-!
# Parsers of text

A parser takes characters off the beginning of a text and answers a value, or fails. Choice
tries its second alternative on the same text. Repetition ends by itself: a round that takes
nothing is not counted.

## Main definitions

* `Parser` — parsers, with sequence and choice
* `Parser.char`, `Parser.literal`, `Parser.run` — the smallest parsers
* `Parser.many`, `Parser.sepBy1` — repetition
* `Parser.whole?` — a parser applied to a whole text
-/

namespace RobotPuzzle

/-- Takes characters off the beginning of a text. -/
def Parser (α : Type) : Type := List Char → Option (α × List Char)

namespace Parser

instance : Monad Parser where
  pure a := fun cs => some (a, cs)
  bind p f := fun cs =>
    match p cs with
    | some (a, rest) => f a rest
    | none => none

instance : Alternative Parser where
  failure := fun _ => none
  orElse p q := fun cs =>
    match p cs with
    | some r => some r
    | none => q () cs

variable {α β : Type}

/-- Answers a value if there is one. -/
def lift (a? : Option α) : Parser α := fun cs => a?.map fun a => (a, cs)

/-- Takes one character with a property. -/
def char (p : Char → Bool) : Parser Char
  | c :: cs => if p c then some (c, cs) else none
  | [] => none

/-- Takes the given characters. -/
def literal (s : String) : Parser Unit := fun cs =>
  if s.toList.isPrefixOf cs then some ((), cs.drop s.length) else none

/-- Takes the longest run of characters with a property, which may be empty. -/
def run (p : Char → Bool) : Parser (List Char) := fun cs => some (cs.takeWhile p, cs.dropWhile p)

/-- Succeeds at the end of the text only. -/
def atEnd : Parser Unit := fun cs => if cs.isEmpty then some ((), cs) else none

/-- Applies a parser as often as it succeeds and takes something. -/
def collect (p : Parser α) (cs : List Char) : List α × List Char :=
  match p cs with
  | some (a, rest) =>
    if rest.length < cs.length then
      let (as, last) := collect p rest
      (a :: as, last)
    else
      ([], cs)
  | none => ([], cs)
termination_by cs.length

/-- Applies a parser as often as it succeeds and takes something. -/
def many (p : Parser α) : Parser (List α) := fun cs => some (collect p cs)

/-- Applies a parser once or more often, with a separator in between. -/
def sepBy1 (p : Parser α) (separator : Parser β) : Parser (List α) := do
  let first ← p
  let more ← many (separator *> p)
  pure (first :: more)

/-- Applies a parser as often as it succeeds, with a separator in between. -/
def sepBy (p : Parser α) (separator : Parser β) : Parser (List α) :=
  sepBy1 p separator <|> pure []

/-- The value of a whole text. -/
def whole? (p : Parser α) (cs : List Char) : Option α :=
  match p cs with
  | some (a, []) => some a
  | _ => none

end Parser

end RobotPuzzle
