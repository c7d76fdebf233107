/-!
# Tokens of a program

A program's text is made of words, numbers and single-character marks, with blanks and comments
between them. Three words are reserved.

## Main definitions

* `Token` — a word, a number, a reserved word or a mark
* `Lexeme` — a token and where it stands
* `Token.ofWord` — reserved words are no names
-/

namespace RobotPuzzle

/-- A token. A number keeps its digits as written. -/
inductive Token
  | word (name : String)
  | number (digits : String)
  | repeatWord
  | ifWord
  | elseWord
  | openParen
  | closeParen
  | openBrace
  | closeBrace
  | semicolon
  | bang
  deriving DecidableEq, Repr

/-- The token of a run of word characters. -/
def Token.ofWord : String → Token
  | "repeat" => repeatWord
  | "if" => ifWord
  | "else" => elseWord
  | name => word name

/-- The token of a mark. -/
def Token.ofMark? : Char → Option Token
  | '(' => some openParen
  | ')' => some closeParen
  | '\x7b' => some openBrace
  | '\x7d' => some closeBrace
  | ';' => some semicolon
  | '!' => some bang
  | _ => none

/-- A token with the offsets of its first character and of the first one after it. -/
structure Lexeme where
  token : Token
  start : Nat
  stop : Nat
  deriving DecidableEq, Repr

end RobotPuzzle
