import RobotPuzzle.Toml.Scalar
import RobotPuzzle.Toml.Table

/-!
# TOML documents

A document is a sequence of lines: key and value pairs, headers of tables, and lines with nothing
but a comment. Pairs belong to the header above them.

## Main definitions

* `Toml.value` — a value of any kind
* `Toml.pair`, `Toml.header` — the lines of a document
* `Toml.read?` — the entries of a document, if it is one
-/

namespace RobotPuzzle.Toml

open RobotPuzzle.Parser

/-- The parts of a dotted key before the last, and the last. -/
abbrev Path := List String × String

/-- A character of a key without quotes. -/
def isKeyChar (c : Char) : Bool := c.isAlphanum || c == '_' || c == '-'

/-- One part of a key. -/
def simpleKey : Parser String :=
  basicString <|> literalString <|> do
    let cs ← run isKeyChar
    if cs.isEmpty then failure else pure (String.ofList cs)

/-- The largest number of parts of a key, and one more than arrays and tables in braces may be
nested. -/
def nestingLimit : Nat := 80

/-- A dotted key, with blanks around its parts. -/
def key : Parser Path := do
  let parts ← sepBy1 (space *> simpleKey <* space) (literal ".")
  if parts.length < nestingLimit then lift (parts.getLast?.map fun last => (parts.dropLast, last))
  else failure

/-- The elements of an array, whose last one may have a comma after it. -/
def array (element : Parser Value) : Parser Value := do
  literal "["
  let elements ← sepBy (gap *> element <* gap) (literal ",")
  unless elements.isEmpty do
    let _ ← optional (literal ",")
  gap
  literal "]"
  pure (.array elements)

/-- A key with its value. -/
def keyValue (element : Parser Value) : Parser (List String × String × Value) := do
  let (path, last) ← key
  literal "="
  space
  let v ← element
  pure (path, last, v)

/-- A table in braces. -/
def inlineTable (element : Parser Value) : Parser Value := do
  literal "\x7b"
  let pairs ← sepBy (keyValue element <* space) (literal ",")
  space
  literal "\x7d"
  let t ← lift (Table.insertAll? ⟨.inline, []⟩ pairs)
  pure t.toValue

/-- A value that nests at most `depth` arrays and tables. -/
def value : Nat → Parser Value
  | 0 => scalar
  | depth + 1 => scalar <|> array (value depth) <|> inlineTable (value depth)

/-- What ends a line: blanks, a comment, and a line end or the end of the text. -/
def lineEnd : Parser Unit := do
  space
  let _ ← optional comment
  newline <|> atEnd

/-- A key with its value on a line. -/
def pair : Parser (List String × String × Value) :=
  keyValue (value (nestingLimit - 1)) <* lineEnd

/-- A header; whether it stands in double brackets, and the key in it. -/
def header : Parser (Bool × Path) :=
  (do
    literal "[["
    let k ← key
    literal "]]"
    lineEnd
    pure (true, k))
  <|> do
    literal "["
    let k ← key
    literal "]"
    lineEnd
    pure (false, k)

/-- Lines with nothing but blanks and a comment. -/
def blankLines : Parser Unit := do
  let _ ← many ((do let _ ← char isSpace) <|> newline <|> (comment *> (newline <|> atEnd)))

/-- The pairs up to the next header. -/
def pairs : Parser (List (List String × String × Value)) := many (pair <* blankLines)

/-- A document: pairs, and then headers with their pairs. -/
def document : Parser (List (List String × String × Value) ×
    List ((Bool × Path) × List (List String × String × Value))) := do
  let _ ← optional (literal "\uFEFF")
  blankLines
  let top ← pairs
  let sections ← many do
    let h ← header
    blankLines
    let ps ← pairs
    pure (h, ps)
  pure (top, sections)

/-- The entries of a document, if it follows the grammar and defines nothing twice. -/
def read? (text : List Char) : Option Entries := do
  let (top, sections) ← whole? document text
  let root ← Table.insertAll? ⟨.header, []⟩ top
  let root ← sections.foldlM (fun root ((many, path, key), ps) =>
    if many then root.addElement? path key ps else root.addSection? path key ps) root
  pure root.entries

end RobotPuzzle.Toml
