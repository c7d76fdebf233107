/-!
# Cells

A cell of the board is a pair of integer coordinates: `x` grows to the east and `z` to the
south. Coordinates are signed, so the cell just past an edge can be named and refused.

## Main definitions

* `Cell` — the coordinates of one cell
* `Cell.shift` — the cell a given offset away
* `Cell.lt` — the order in which cells are listed, by `x` and then by `z`
* `Cell.text` — the written form of a cell
-/

namespace RobotPuzzle

/-- A cell, by its column `x` and its row `z`. -/
structure Cell where
  x : Int
  z : Int
  deriving DecidableEq, Repr, Inhabited

namespace Cell

/-- The cell reached from `c` by `offset.1` columns and `offset.2` rows. -/
def shift (c : Cell) (offset : Int × Int) : Cell :=
  ⟨c.x + offset.1, c.z + offset.2⟩

/-- Cells are listed column by column, and from north to south within a column. -/
def lt (a b : Cell) : Prop := a.x < b.x ∨ (a.x = b.x ∧ a.z < b.z)

instance (a b : Cell) : Decidable (a.lt b) :=
  inferInstanceAs (Decidable (a.x < b.x ∨ (a.x = b.x ∧ a.z < b.z)))

/-- A cell is written as its coordinates in parentheses. -/
def text (c : Cell) : String := s!"({c.x}, {c.z})"

theorem lt_irrefl (a : Cell) : ¬ a.lt a := by
  simp [lt]

theorem lt_trans {a b c : Cell} (hab : a.lt b) (hbc : b.lt c) : a.lt c := by
  unfold lt at *
  omega

theorem lt_or_eq_or_gt (a b : Cell) : a.lt b ∨ a = b ∨ b.lt a := by
  obtain ⟨x, z⟩ := a
  obtain ⟨x', z'⟩ := b
  simp only [lt, mk.injEq]
  omega

end Cell

end RobotPuzzle
