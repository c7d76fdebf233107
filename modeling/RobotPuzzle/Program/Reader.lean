import RobotPuzzle.Text.Blank
import RobotPuzzle.Program.Lexer
import RobotPuzzle.Program.Statement

/-!
# Reading statements

A reader takes the tokens of a program one after the other. Its state holds the statements read
so far, the blocks that are still open, and how much has been read of the statement under way.
Each state knows which tokens may come next and, if another one comes, which offset to blame.

The grammar, with marks in quotes:

```
program   = statement*
statement = (call | loop | branch) ";"*
call      = word ("(" number? ")" | number)?
loop      = repeat ("(" number ")" | number) block
branch    = if condition block (else (branch | block))?
condition = "!" condition | "(" condition ")" | word ("(" ")")?
block     = "{" statement* "}"
```

## Main definitions

* `Reader.Pending` — how much of a statement has been read
* `Reader.Frame` — a block that is still open
* `Reader` — the state of the reader
* `Reader.step?` — reads one token
* `Reader.close?` — takes the end of the text
* `Pending.blame` — the offset to blame for a token that may not come
* `readStatements` — the statements of a text, or the offset of its first mistake
-/

namespace RobotPuzzle

/-- The part of a text from one offset up to another. -/
def slice (text : List Char) (start stop : Nat) : List Char := (text.drop start).take (stop - start)

/-- A word with the offsets of its first character and of the first one after it. -/
structure Word where
  name : String
  start : Nat
  stop : Nat
  deriving DecidableEq, Repr

namespace Reader

/-- How much has been read of the statement under way. Offsets named `paren` are those of an
opening parenthesis; `start` is that of a loop's first word; `opened` counts the parentheses of
a condition that are still open. -/
inductive Pending
  /-- No statement has begun. -/
  | nothing
  /-- A statement is complete; semicolons may follow it. -/
  | separator
  /-- The name of a call; an argument may follow. -/
  | call (name : Word)
  | callParen (name : Word) (paren : Nat)
  | callNumber (name : Word) (paren : Nat) (digits : String)
  | loop (start : Nat)
  | loopParen (start : Nat) (paren : Nat)
  | loopNumber (start : Nat) (paren : Nat) (digits : String)
  /-- The count of a loop; its block must follow. -/
  | loopCount (start : Nat) (count : String)
  /-- A condition in which no sensor has been read. -/
  | condition (negated : Bool) (opened : Nat)
  /-- A condition's sensor; parentheses of its own may follow. -/
  | sensor (negated : Bool) (opened : Nat) (name : Word)
  | sensorParen (negated : Bool) (opened : Nat) (name : Word) (paren : Nat)
  /-- A condition that lacks nothing but closing parentheses. -/
  | sensorDone (negated : Bool) (opened : Nat) (name : Word)
  /-- A branch with its first block; `else` may follow. -/
  | thenDone (condition : Condition) (thenBlock : List Statement)
  /-- A branch up to the word `else`. -/
  | elseBranch (condition : Condition) (thenBlock : List Statement)
  deriving Repr

/-- A block that is still open, with the statements that stand before its statement in the
enclosing block, the latest first. `elseIf` is the block that a branch after `else` makes up
alone. -/
inductive Frame
  | loop (start : Nat) (count : String) (before : List Statement)
  | thenBlock (condition : Condition) (before : List Statement)
  | elseBlock (condition : Condition) (thenBlock : List Statement) (before : List Statement)
  | elseIf (condition : Condition) (thenBlock : List Statement) (before : List Statement)
  deriving Repr

end Reader

open Reader in
/-- The state of a reader: the open blocks from the inside out, the statements of the innermost
one, the latest first, and the statement under way. -/
structure Reader where
  frames : List Frame := []
  done : List Statement := []
  pending : Pending := .nothing
  deriving Repr

namespace Reader

/-- Adds a complete statement. A branch that stands after `else` completes the outer branch. -/
def complete (s : Statement) : List Frame → List Statement → Reader
  | .elseIf condition thenBlock before :: frames, _ =>
    complete (.branch condition thenBlock (some [s])) frames before
  | frames, done => { frames, done := s :: done, pending := .separator }

/-- Adds a complete statement to the block under way. -/
def push (r : Reader) (s : Statement) : Reader := complete s r.frames r.done

/-- A call whose text reaches up to the offset `stop`, without the white space at its end. -/
def callOf (text : List Char) (name : Word) (argument : Option String) (stop : Nat) : Statement :=
  .call name.name argument (String.ofList (trimEnd (slice text name.start stop)))
    (.ofOffset text name.start)

/-- Completes a statement under way that lacks nothing. A call without argument takes in all
that stands before the offset `next`, the one of the next token. -/
def settle (text : List Char) (r : Reader) (next : Nat) : Reader :=
  match r.pending with
  | .call name => r.push (callOf text name none next)
  | .thenDone condition thenBlock => r.push (.branch condition thenBlock none)
  | _ => r

/-- Ends the innermost block. -/
def closeBlock? (text : List Char) (r : Reader) : Option Reader :=
  match r.frames with
  | .loop start count before :: frames =>
    some (complete (.loop count r.done.reverse (.ofOffset text start)) frames before)
  | .thenBlock condition before :: frames =>
    some { frames, done := before, pending := .thenDone condition r.done.reverse }
  | .elseBlock condition thenBlock before :: frames =>
    some (complete (.branch condition thenBlock (some r.done.reverse)) frames before)
  -- a branch after `else` has no brace of its own that could be closed
  | _ => none

/-- Begins a statement, ends a block or passes over a semicolon after a statement. -/
def begin? (text : List Char) (r : Reader) (l : Lexeme) : Option Reader :=
  match r.pending, l.token with
  | .separator, .semicolon => some r
  | _, .word name => some { r with pending := .call ⟨name, l.start, l.stop⟩ }
  | _, .repeatWord => some { r with pending := .loop l.start }
  | _, .ifWord => some { r with pending := .condition false 0 }
  | _, .closeBrace => r.closeBlock? text
  | _, _ => none

/-- Opens a block, whose frame keeps the statements read so far. -/
def openBlock (r : Reader) (frame : List Statement → Frame) : Reader :=
  { frames := frame r.done :: r.frames, done := [], pending := .nothing }

/-- Goes on within the statement under way, or answers `none` if the token is no part of it. -/
def continue? (text : List Char) (r : Reader) (l : Lexeme) : Option Reader :=
  match r.pending, l.token with
  -- calls
  | .call name, .number digits => some (r.push (callOf text name (some digits) l.stop))
  | .call name, .openParen => some { r with pending := .callParen name l.start }
  | .callParen name _, .closeParen => some (r.push (callOf text name none l.stop))
  | .callParen name paren, .number digits =>
    some { r with pending := .callNumber name paren digits }
  | .callNumber name _ digits, .closeParen =>
    some (r.push (callOf text name (some digits) l.stop))
  -- loops up to their blocks
  | .loop start, .number count => some { r with pending := .loopCount start count }
  | .loop start, .openParen => some { r with pending := .loopParen start l.start }
  | .loopParen start paren, .number digits =>
    some { r with pending := .loopNumber start paren digits }
  | .loopNumber start _ count, .closeParen => some { r with pending := .loopCount start count }
  | .loopCount start count, .openBrace => some (r.openBlock (.loop start count))
  -- conditions, with one pair of parentheses at most after the sensor
  | .condition negated opened, .bang => some { r with pending := .condition (!negated) opened }
  | .condition negated opened, .openParen =>
    some { r with pending := .condition negated (opened + 1) }
  | .condition negated opened, .word name =>
    some { r with pending := .sensor negated opened ⟨name, l.start, l.stop⟩ }
  | .sensor negated opened name, .openParen =>
    some { r with pending := .sensorParen negated opened name l.start }
  | .sensorParen negated opened name _, .closeParen =>
    some { r with pending := .sensorDone negated opened name }
  | .sensor negated (opened + 1) name, .closeParen
  | .sensorDone negated (opened + 1) name, .closeParen =>
    some { r with pending := .sensorDone negated opened name }
  | .sensor negated 0 name, .openBrace
  | .sensorDone negated 0 name, .openBrace =>
    some (r.openBlock (.thenBlock ⟨negated, name.name, .ofOffset text name.start⟩))
  -- branches after their first blocks
  | .thenDone condition thenBlock, .elseWord =>
    some { r with pending := .elseBranch condition thenBlock }
  | .elseBranch condition thenBlock, .openBrace =>
    some (r.openBlock (.elseBlock condition thenBlock))
  | .elseBranch condition thenBlock, .ifWord =>
    some { r.openBlock (.elseIf condition thenBlock) with pending := .condition false 0 }
  | _, _ => none

namespace Pending

/-- Whether a statement under way lacks nothing, so that another one may begin. -/
def settled : Pending → Bool
  | nothing | separator | call _ | thenDone .. => true
  | _ => false

/-- The offset to blame for a token, or the end of the text, at the offset `next` that may not
come. An argument without its closing parenthesis is blamed on the opening one, and a condition
without one on its sensor: there stands the rule of the grammar that fails furthest down. -/
def blame (next : Nat) : Pending → Nat
  | callNumber _ paren _ => paren
  | loopNumber _ paren _ => paren
  | sensor _ opened name | sensorDone _ opened name => if opened = 0 then next else name.start
  | sensorParen _ opened name paren => if opened = 0 then paren else name.start
  | _ => next

end Pending

/-- Reads one token: it goes on with the statement under way or, if that lacks nothing, begins
something new. -/
def step? (text : List Char) (r : Reader) (l : Lexeme) : Option Reader :=
  match r.continue? text l with
  | some r' => some r'
  | none => if r.pending.settled then (r.settle text l.start).begin? text l else none

/-- The statements of a text that ends here, if no block and no statement is left unfinished. -/
def close? (text : List Char) (r : Reader) (stop : Nat) : Option (List Statement) :=
  if r.pending.settled then
    match r.settle text stop with
    | { frames := [], done, .. } => some done.reverse
    | _ => none
  else
    none

theorem close?_eq_some_iff {text : List Char} {r : Reader} {stop : Nat} {ss : List Statement} :
    r.close? text stop = some ss ↔
      r.pending.settled = true ∧ (r.settle text stop).frames = [] ∧
        (r.settle text stop).done.reverse = ss := by
  unfold close?
  by_cases hsettled : r.pending.settled = true
  · rw [if_pos hsettled]
    obtain ⟨frames, done, pending⟩ := r.settle text stop
    cases frames with
    | nil => simp [hsettled]
    | cons frame frames => simp
  · simp [hsettled]

/-- Reads tokens up to the end of scanning, or fails with the offset of the first mistake. -/
def readAll (text : List Char) (stop : Nat) (complete : Bool) :
    Reader → List Lexeme → Except Nat (List Statement)
  | r, [] =>
    match if complete then r.close? text stop else none with
    | some statements => .ok statements
    | none => .error (r.pending.blame stop)
  | r, l :: ls =>
    match r.step? text l with
    | some r' => readAll text stop complete r' ls
    | none => .error (r.pending.blame l.start)

end Reader

/-- The statements of a program's text, or the offset of its first mistake. -/
def readStatements (text : List Char) : Except Nat (List Statement) :=
  let scan := Lexer.scan text
  Reader.readAll text scan.stop scan.complete {} scan.lexemes

end RobotPuzzle
