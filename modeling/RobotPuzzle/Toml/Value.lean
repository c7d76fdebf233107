/-!
# TOML values

The values of a TOML document. Tables keep their entries in the order in which they were
inserted, and remember how they came about, because that decides who may still add to them.

## Main definitions

* `Toml.TableKind` — how a table came about
* `Toml.Value` — a value
* `Toml.Entries` — the entries of a table
-/

namespace RobotPuzzle.Toml

/-- How a table came about: from a header of its own, from a header of a table within it, from
a dotted key, or written out in braces. -/
inductive TableKind | header | implied | dotted | inline
  deriving DecidableEq, Repr

/-- A value. `tables` is an array that headers in double brackets add tables to. A date or time
keeps nothing but that it is one. -/
inductive Value
  | string (s : String)
  | integer (n : Int)
  | float (x : Float)
  | boolean (b : Bool)
  | datetime
  | array (elements : List Value)
  | table (kind : TableKind) (entries : List (String × Value))
  | tables (elements : List (List (String × Value)))

/-- The entries of a table. -/
abbrev Entries := List (String × Value)

end RobotPuzzle.Toml
