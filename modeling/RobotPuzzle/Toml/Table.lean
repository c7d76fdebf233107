import RobotPuzzle.Toml.Value

/-!
# Adding to TOML tables

A table is defined once. A dotted key may add to tables that dotted keys have made, a header may
define a table that so far is only implied by the headers of tables within it, and a header in
double brackets adds one more table to an array of tables. What is written out in braces or
brackets is complete.

## Main definitions

* `Table` — entries with the way they came about
* `Table.descend` — changes the table at the end of a path, making the tables on the way
* `Table.insert?` — adds the value of a dotted key
* `Table.addSection?`, `Table.addElement?` — adds the table of a header
-/

namespace RobotPuzzle.Toml

/-- The entries of a table, and how it came about. -/
structure Table where
  kind : TableKind
  entries : Entries := []

namespace Table

/-- The value of a key. -/
def find? (t : Table) (key : String) : Option Value := t.entries.lookup key

/-- Adds an entry at the end. -/
def append (t : Table) (key : String) (v : Value) : Table :=
  { t with entries := t.entries ++ [(key, v)] }

/-- Gives the value of a key another value, in its place. -/
def replace (t : Table) (key : String) (v : Value) : Table :=
  { t with entries := t.entries.map fun (k, w) => if k == key then (k, v) else (k, w) }

/-- Takes out the entry of a key. -/
def erase (t : Table) (key : String) : Table :=
  { t with entries := t.entries.filter fun (k, _) => k != key }

/-- The table as a value. -/
def toValue (t : Table) : Value := .table t.kind t.entries

/-- The tables that a path may pass through: those not complete, and for a dotted key only those
without a header. -/
def passable (dotted : Bool) : TableKind → Bool
  | .inline => false
  | .header => !dotted
  | .implied | .dotted => true

/-- Changes the table at the end of a path. Tables that the path lacks are made on the way; an
array of tables is passed through by its last one. -/
def descend (dotted : Bool) (change : Table → Option Table) : List String → Table → Option Table
  | [], t => change t
  | key :: path, t =>
    match t.find? key with
    | none => do
      let made ← descend dotted change path ⟨if dotted then .dotted else .implied, []⟩
      pure (t.append key made.toValue)
    | some (.table kind entries) =>
      if passable dotted kind then do
        let changed ← descend dotted change path ⟨kind, entries⟩
        pure (t.replace key changed.toValue)
      else
        none
    | some (.tables elements) => do
      let last ← elements.getLast?
      let changed ← descend dotted change path ⟨.header, last⟩
      pure (t.replace key (.tables (elements.dropLast ++ [changed.entries])))
    | some _ => none

/-- Adds the value of a dotted key, whose last part names a new entry. -/
def insert? (t : Table) (path : List String) (key : String) (v : Value) : Option Table :=
  descend true (fun last =>
    if (last.kind == .dotted) == path.isEmpty || (last.find? key).isSome then none
    else some (last.append key v)) path t

/-- Adds the values of dotted keys one after the other. -/
def insertAll? (t : Table) (pairs : List (List String × String × Value)) : Option Table :=
  pairs.foldlM (fun t (path, key, v) => t.insert? path key v) t

/-- Adds the table of a header with its entries. If headers of tables within it have implied it
before, its entries go with theirs, in the place of the later header. -/
def addSection? (root : Table) (path : List String) (key : String)
    (pairs : List (List String × String × Value)) : Option Table :=
  descend false (fun parent => do
    let earlier ← match parent.find? key with
      | none => some []
      | some (.table .implied entries) => some entries
      | some _ => none
    let t ← insertAll? ⟨.header, earlier⟩ pairs
    pure ((parent.erase key).append key t.toValue)) path root

/-- Adds one more table to an array of tables. -/
def addElement? (root : Table) (path : List String) (key : String)
    (pairs : List (List String × String × Value)) : Option Table :=
  descend false (fun parent => do
    let t ← insertAll? ⟨.header, []⟩ pairs
    match parent.find? key with
    | none => pure (parent.append key (.tables [t.entries]))
    | some (.tables elements) => pure (parent.replace key (.tables (elements ++ [t.entries])))
    | some _ => none) path root

end Table

end RobotPuzzle.Toml
