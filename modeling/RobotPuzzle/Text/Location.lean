/-!
# Locations in a text

A location is a line and a column, both counted from 1. A line feed ends a line, alone or after
a carriage return; a carriage return without a line feed is a column like any other character.

## Main definitions

* `Location` — a line and a column
* `Location.after` — the location reached by reading some characters
* `Location.ofOffset` — the location of an offset in a text

## Main results

* `Location.after_append` — reading can be split anywhere but within a line end
-/

namespace RobotPuzzle

/-- A line and a column, counted from 1. Columns count characters. -/
structure Location where
  line : Nat
  column : Nat
  deriving DecidableEq, Repr, Inhabited

namespace Location

/-- Where every text begins. -/
def first : Location := ⟨1, 1⟩

/-- The beginning of the next line. -/
def nextLine (l : Location) : Location := ⟨l.line + 1, 1⟩

/-- The next column of the same line. -/
def nextColumn (l : Location) : Location := ⟨l.line, l.column + 1⟩

/-- The location reached from `l` by reading some characters. -/
def after (l : Location) : List Char → Location
  | [] => l
  | '\r' :: '\n' :: cs => l.nextLine.after cs
  | '\n' :: cs => l.nextLine.after cs
  | _ :: cs => l.nextColumn.after cs

/-- The location of the character with a given offset, which only what stands before it
decides. -/
def ofOffset (text : List Char) (offset : Nat) : Location := first.after (text.take offset)

theorem after_append {cs ds : List Char} (l : Location)
    (h : ¬ (cs.getLast? = some '\r' ∧ ds.head? = some '\n')) :
    l.after (cs ++ ds) = (l.after cs).after ds := by
  fun_induction after l cs with
  | case1 l => rfl
  | case2 l cs ih =>
    simp only [List.cons_append, after]
    refine ih fun h' => h ⟨?_, h'.2⟩
    cases cs <;> simp_all
  | case3 l cs ih =>
    simp only [List.cons_append, after]
    refine ih fun h' => h ⟨?_, h'.2⟩
    cases cs <;> simp_all
  | case4 l c cs hcr hlf ih =>
    have hsplit : ∀ rest, c = '\r' → cs ++ ds = '\n' :: rest → False := by
      intro rest hc heq
      cases cs with
      | nil => exact h (by simp_all)
      | cons d cs => exact hcr cs hc (by simp_all)
    rw [List.cons_append, after.eq_4 _ _ _ hsplit hlf]
    refine ih fun h' => h ⟨?_, h'.2⟩
    cases cs <;> simp_all

end Location

end RobotPuzzle
