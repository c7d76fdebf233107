import RobotPuzzle.Counter
import RobotPuzzle.Decimal.Shortest
import RobotPuzzle.Level.Basic
import RobotPuzzle.Text.Quoted
import RobotPuzzle.Toml.Document

/-!
# Level files

A level may be written in a TOML document. Its entries are looked at in the order in which they
are written, and the first one of the wrong form is reported; after that, the first one that is
missing. Entries with other names are passed over. A group of entries may also be written as an
array of their values in the order in which the group declares them.

## Main definitions

* `FileError`, `FileError.message?` — why a file describes no level
* `Decoder` — reads a value of a document
* `Config.ofFile` — the configuration in a file
* `Level.ofFile` — the level in a file
-/

namespace RobotPuzzle

/-- Why a file describes no level. A malformed one is not even a document, or has a value so far
out of place that nothing can be said about it. -/
inductive FileError
  | malformed
  | missing (field : String)
  | unknownName (name : String) (known : List String)
  | wrongType (found expected : String)
  | outOfRange (n : Int) (expected : String)
  deriving DecidableEq, Repr

namespace FileError

/-- A name between backticks. -/
def tick (s : String) : String := "\x60" ++ s ++ "\x60"

/-- A list of two or of more names. -/
def nameList : List String → String
  | [a, b] => tick a ++ " or " ++ tick b
  | names => "one of " ++ ", ".intercalate (names.map tick)

/-- The error in one line, if it can be told in words. A name that holds a line end is cut
there. -/
def message? : FileError → Option String
  | malformed => none
  | missing field => some ("missing field " ++ tick field)
  | unknownName name known =>
    some (firstLine ("unknown variant " ++ tick name ++ ", expected " ++ nameList known))
  | wrongType found expected => some s!"invalid type: {found}, expected {expected}"
  | outOfRange n expected =>
    some ("invalid value: integer " ++ tick (toString n) ++ ", expected " ++ expected)
where
  /-- A text up to its first line end. -/
  firstLine (s : String) : String :=
    let line := s.toList.takeWhile (· != '\n')
    String.ofList
      (if line.length < s.length && line.getLast? == some '\r' then line.dropLast else line)

end FileError

/-- Reads a value of a document. -/
abbrev Decoder (α : Type) := Toml.Value → Except FileError α

namespace Decoder

/-- What is found, in the words of an error. -/
def describe : Toml.Value → String
  | .string s => "string " ++ quote s
  | .integer n => "integer " ++ FileError.tick (toString n)
  | .float x =>
    "floating point " ++
      FileError.tick (BinaryFormat.double.decode x.toBits.toNat).pointedText
  | .boolean b => "boolean " ++ FileError.tick (toString b)
  | .array _ | .tables _ => "sequence"
  | .table .. | .datetime => "map"

/-- Refuses a value of the wrong type. -/
def refuse {α : Type} (expected : String) (v : Toml.Value) : Except FileError α :=
  .error (.wrongType (describe v) expected)

/-- A string. -/
def string : Decoder String
  | .string s => .ok s
  | v => refuse "a string" v

/-- An integer from `lo` to `hi`. -/
def integer (expected : String) (lo hi : Int) : Decoder Int
  | .integer n => if lo ≤ n ∧ n ≤ hi then .ok n else .error (.outOfRange n expected)
  | v => refuse expected v

/-- A coordinate or size, an integer of 32 bits with a sign. -/
def coordinate : Decoder Int := integer "i32" (-2147483648) 2147483647

/-- A number of steps, an integer of 32 bits without a sign. -/
def steps : Decoder Nat := fun v => Int.toNat <$> integer "u32" 0 counterLimit v

/-- One of several names, as a string or as the only key of a table whose value is empty. -/
def choice {α : Type} (options : List α) (name : α → String) : Decoder α
  | .string s => find s
  | .table _ [(s, v)] => do
    let a ← find s
    match v with
    | .table _ [] | .array [] => pure a
    | _ => throw .malformed
  | _ => .error .malformed
where
  /-- The option with a name. -/
  find (s : String) : Except FileError α :=
    match options.find? fun a => name a == s with
    | some a => .ok a
    | none => .error (.unknownName s (options.map name))

/-- The elements of an array. -/
def list {α : Type} (element : Decoder α) : Decoder (List α)
  | .array vs => vs.mapM element
  | .tables ts => ts.mapM fun entries => element (.table .header entries)
  | v => refuse "a sequence" v

end Decoder

/-- A group of entries, with the error that one of them is missing. -/
structure Fields where
  entries : Toml.Entries
  absent : String → FileError

namespace Fields

/-- The fields of a group, each with a check of its value. -/
abbrev Checks := List (String × Decoder Unit)

/-- A field of a group with the check that it can be read. -/
def check {α : Type} (name : String) (d : Decoder α) : String × Decoder Unit :=
  (name, fun v => (d v).map fun _ => ())

/-- The entries of a group, with or without names, if all known ones can be read. -/
def ofValue (group : String) (checks : Checks) (v : Toml.Value) : Except FileError Fields := do
  let fields ← match v with
    | .table _ entries => pure ⟨entries, .missing⟩
    | .datetime => pure ⟨[], .missing⟩
    | .array vs => pure ⟨(checks.map Prod.fst).zip vs, fun _ => .malformed⟩
    | .tables ts =>
      pure ⟨(checks.map Prod.fst).zip (ts.map (.table .header)), fun _ => .malformed⟩
    | v => Decoder.refuse ("struct " ++ group) v
  fields.entries.forM fun (name, v) =>
    match checks.lookup name with
    | some check => check v
    | none => pure ()
  pure fields

/-- The value of a field that must be there. -/
def get {α : Type} (f : Fields) (name : String) (d : Decoder α) : Except FileError α :=
  match f.entries.lookup name with
  | some v => d v
  | none => .error (f.absent name)

/-- The value of a field that need not be there. -/
def getD {α : Type} (f : Fields) (name : String) (d : Decoder α) (default : α) :
    Except FileError α :=
  match f.entries.lookup name with
  | some v => d v
  | none => .ok default

end Fields

namespace Decoder

open Fields

/-- A cell. -/
def cell : Decoder Cell := fun v => do
  let f ← ofValue "GridCoordinate" [check "x" coordinate, check "z" coordinate] v
  pure ⟨← f.get "x" coordinate, ← f.get "z" coordinate⟩

/-- A facing. -/
def facing : Decoder Facing := choice Facing.all Facing.name

/-- The robot's cell and facing. -/
def robot : Decoder Robot := fun v => do
  let f ← ofValue "ActorSpawn"
    [check "x" coordinate, check "z" coordinate, check "facing" facing] v
  pure ⟨⟨← f.get "x" coordinate, ← f.get "z" coordinate⟩, ← f.get "facing" facing⟩

/-- A rectangle of walls. -/
def rect : Decoder Rect := fun v => do
  let f ← ofValue "ObstacleRect" [check "x_min" coordinate, check "x_max" coordinate,
    check "z_min" coordinate, check "z_max" coordinate] v
  pure ⟨← f.get "x_min" coordinate, ← f.get "x_max" coordinate,
    ← f.get "z_min" coordinate, ← f.get "z_max" coordinate⟩

/-- A kind of hazard. -/
def hazardKind : Decoder HazardKind := choice HazardKind.all HazardKind.name

/-- A hazard. -/
def hazard : Decoder HazardSpec := fun v => do
  let f ← ofValue "HazardSpec"
    [check "x" coordinate, check "z" coordinate, check "kind" hazardKind] v
  pure ⟨⟨← f.get "x" coordinate, ← f.get "z" coordinate⟩, ← f.getD "kind" hazardKind .fire⟩

/-- The configuration of a level. -/
def config : Decoder Config := fun v => do
  let f ← ofValue "LevelConfig" [check "name" string, check "grid_size" coordinate,
    check "instruction_budget" steps, check "actor" robot, check "objective" cell,
    check "obstacles" (list rect), check "hazards" (list hazard)] v
  pure
    { name := ← f.get "name" string
      gridSize := ← f.getD "grid_size" coordinate 10
      budget := ← f.get "instruction_budget" steps
      start := ← f.get "actor" robot
      crystal := ← f.get "objective" cell
      walls := ← f.getD "obstacles" (list rect) []
      hazards := ← f.getD "hazards" (list hazard) [] }

end Decoder

/-- The configuration in a file. -/
def Config.ofFile (source : String) : Except FileError Config :=
  match Toml.read? source.toList with
  | some entries => Decoder.config (.table .header entries)
  | none => .error .malformed

/-- Why a file gives no level. -/
inductive LevelError
  | file (error : FileError)
  | config (error : ConfigError)
  deriving DecidableEq, Repr

/-- The level in a file. -/
def Level.ofFile (source : String) : Except LevelError Level :=
  match Config.ofFile source with
  | .error e => .error (.file e)
  | .ok c =>
    match Level.ofConfig c with
    | .error e => .error (.config e)
    | .ok l => .ok l

end RobotPuzzle
