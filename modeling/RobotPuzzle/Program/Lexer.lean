import RobotPuzzle.Program.Token

/-!
# Splitting a program into tokens

Tokens are taken from left to right, each as long as possible, after skipping blanks and
comments. A comment runs from two slashes or a hash to the end of the line, or between a slash
with a star and a star with a slash; one that is never closed is no comment. Scanning ends at
the end of the text or at the first character that begins no token.

## Main definitions

* `Lexer.dropLayout` — skips blanks and comments
* `Lexer.token?` — takes one token
* `Scan`, `Lexer.scan` — all tokens of a text, and where they end
-/

namespace RobotPuzzle.Lexer

/-- The blanks that may stand between tokens. -/
def isGap (c : Char) : Bool := c == ' ' || c == '\t' || c == '\r' || c == '\n'

/-- A letter or an underscore begins a word. -/
def isWordStart (c : Char) : Bool := c.isAlpha || c == '_'

/-- Letters, digits and underscores go on with a word. -/
def isWordChar (c : Char) : Bool := c.isAlphanum || c == '_'

/-- The rest of a text from the line feed that ends its first line. -/
def dropLine (cs : List Char) : List Char := cs.dropWhile (· != '\n')

/-- What follows the next star with a slash, if there is one. -/
def closeComment? : List Char → Option (List Char)
  | [] => none
  | '*' :: '/' :: cs => some cs
  | _ :: cs => closeComment? cs

/-- What follows one blank or one comment, if the text begins with either. -/
def skipOne? : List Char → Option (List Char)
  | '/' :: '/' :: cs => some (dropLine cs)
  | '/' :: '*' :: cs => closeComment? cs
  | '#' :: cs => some (dropLine cs)
  | c :: cs => if isGap c then some cs else none
  | [] => none

theorem length_dropLine_le (cs : List Char) : (dropLine cs).length ≤ cs.length :=
  (List.dropWhile_suffix _).length_le

theorem length_closeComment? {cs ds : List Char} (h : closeComment? cs = some ds) :
    ds.length < cs.length := by
  fun_induction closeComment? cs with
  | case1 => simp at h
  | case2 cs =>
    cases h
    simp only [List.length_cons]
    omega
  | case3 c cs _ ih =>
    have := ih h
    simp only [List.length_cons]
    omega

theorem length_skipOne? {cs ds : List Char} (h : skipOne? cs = some ds) :
    ds.length < cs.length := by
  revert h
  fun_cases skipOne? cs with
  | case1 cs =>
    rintro ⟨⟩
    have := length_dropLine_le cs
    simp only [List.length_cons]
    omega
  | case2 cs =>
    intro h
    have := length_closeComment? h
    simp only [List.length_cons]
    omega
  | case3 cs =>
    rintro ⟨⟩
    have := length_dropLine_le cs
    simp only [List.length_cons]
    omega
  | case4 c cs =>
    rintro ⟨⟩
    simp
  | case5 => simp
  | case6 => simp

/-- Skips blanks and comments. -/
def dropLayout (cs : List Char) : List Char :=
  match _h : skipOne? cs with
  | some ds => dropLayout ds
  | none => cs
termination_by cs.length
decreasing_by exact length_skipOne? _h

theorem dropLayout_of_skipOne? {cs ds : List Char} (h : skipOne? cs = some ds) :
    dropLayout cs = dropLayout ds := by
  rw [dropLayout]
  split
  · next es he =>
    rw [h] at he
    cases he
    rfl
  · next he => simp [h] at he

theorem dropLayout_of_skipOne?_none {cs : List Char} (h : skipOne? cs = none) :
    dropLayout cs = cs := by
  rw [dropLayout]
  split
  · next es he => simp [h] at he
  · rfl

/-- The token at the very beginning of a text, with what follows it. A number is a run of
digits, with a minus sign before it or not. -/
def token? : List Char → Option (Token × List Char)
  | [] => none
  | c :: cs =>
    if isWordStart c then
      some (.ofWord (String.ofList (c :: cs.takeWhile isWordChar)), cs.dropWhile isWordChar)
    else if c.isDigit then
      some (.number (String.ofList (c :: cs.takeWhile Char.isDigit)), cs.dropWhile Char.isDigit)
    else if c = '-' then
      -- a minus sign belongs to a number only if nothing stands between them
      if (cs.head?.any Char.isDigit) then
        some (.number (String.ofList (c :: cs.takeWhile Char.isDigit)), cs.dropWhile Char.isDigit)
      else
        none
    else
      (Token.ofMark? c).map fun t => (t, cs)

theorem length_dropLayout_le (cs : List Char) : (dropLayout cs).length ≤ cs.length := by
  fun_induction dropLayout cs with
  | case1 cs ds h ih =>
    have := length_skipOne? h
    omega
  | case2 => exact Nat.le_refl _

theorem length_token? {cs ds : List Char} {t : Token} (h : token? cs = some (t, ds)) :
    ds.length < cs.length := by
  have hdrop : ∀ (p : Char → Bool) (es : List Char), (es.dropWhile p).length < es.length + 1 :=
    fun p es => Nat.lt_succ_of_le (List.dropWhile_suffix p).length_le
  revert h
  -- a token takes its first character, and all others come off the rest
  fun_cases token? cs <;> simp_all
  all_goals
    rintro - rfl
    exact hdrop _ _

end Lexer

/-- The tokens of a text. `stop` is the offset at which scanning ended, and `complete` says that
nothing was left there. -/
structure Scan where
  lexemes : List Lexeme
  stop : Nat
  complete : Bool
  deriving DecidableEq, Repr

namespace Lexer

/-- The tokens of a text whose first character has the offset `pos`. -/
def scanFrom (pos : Nat) (cs : List Char) : Scan :=
  let body := dropLayout cs
  let start := pos + (cs.length - body.length)
  match _h : token? body with
  | none => { lexemes := [], stop := start, complete := body.isEmpty }
  | some (token, rest) =>
    let stop := start + (body.length - rest.length)
    let later := scanFrom stop rest
    { later with lexemes := { token, start, stop } :: later.lexemes }
termination_by cs.length
decreasing_by exact Nat.lt_of_lt_of_le (length_token? _h) (length_dropLayout_le cs)

theorem scanFrom_of_none {pos : Nat} {cs : List Char} (h : token? (dropLayout cs) = none) :
    scanFrom pos cs =
      { lexemes := [], stop := pos + (cs.length - (dropLayout cs).length)
        complete := (dropLayout cs).isEmpty } := by
  rw [scanFrom]
  split
  · rfl
  · next he => simp [h] at he

theorem scanFrom_of_some {pos : Nat} {cs rest : List Char} {t : Token}
    (h : token? (dropLayout cs) = some (t, rest)) :
    scanFrom pos cs =
      let start := pos + (cs.length - (dropLayout cs).length)
      let stop := start + ((dropLayout cs).length - rest.length)
      { scanFrom stop rest with
        lexemes := ⟨t, start, stop⟩ :: (scanFrom stop rest).lexemes } := by
  rw [scanFrom]
  split
  · next he => simp [h] at he
  · next t' rest' he =>
    rw [h] at he
    cases he
    rfl

/-- The tokens of a program's text. -/
def scan (text : List Char) : Scan := scanFrom 0 text

end RobotPuzzle.Lexer
