import RobotPuzzle.Text.Printable

/-!
# Quoted text

Text that a message quotes stands in quotation marks. A quotation mark or a backslash in it has a
backslash before it, line ends and the like have a letter of their own, and any other character
that cannot be shown by itself is written as its code point.

## Main definitions

* `quoteChar`, `quote` — the written form
-/

namespace RobotPuzzle

/-- A character within quotation marks. -/
def quoteChar (c : Char) : List Char :=
  if c = '"' then ['\\', '"']
  else if c = '\\' then ['\\', '\\']
  else if c = '\n' then ['\\', 'n']
  else if c = '\r' then ['\\', 'r']
  else if c = '\t' then ['\\', 't']
  else if c.toNat = 0 then ['\\', '0']
  else if isPrintable c then [c]
  else "\\u\x7b".toList ++ Nat.toDigits 16 c.toNat ++ ['\x7d']

/-- A text in quotation marks. -/
def quote (s : String) : String := String.ofList ('"' :: s.toList.flatMap quoteChar ++ ['"'])

end RobotPuzzle
