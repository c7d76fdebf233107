import RobotPuzzle.Cell

/-!
# Rectangles of cells

Walls are given as rectangles with inclusive bounds. A rectangle is *inverted* when a lower
bound exceeds its upper bound; only rectangles that are not inverted stand for sets of cells.

## Main definitions

* `Rect` — the bounds
* `Rect.Inverted`, `Rect.Contains` — when a rectangle is no rectangle, and its cells
* `Rect.cells` — the cells in listing order

## Main results

* `Rect.mem_cells` — the listed cells are the contained ones
-/

namespace RobotPuzzle

/-- The integers from `lo` to `hi`, both included. -/
def between (lo hi : Int) : List Int :=
  (List.range (hi - lo + 1).toNat).map fun (i : Nat) => lo + i

theorem mem_between {lo hi a : Int} : a ∈ between lo hi ↔ lo ≤ a ∧ a ≤ hi := by
  simp only [between, List.mem_map, List.mem_range]
  constructor
  · rintro ⟨i, hi, rfl⟩
    omega
  · intro h
    exact ⟨(a - lo).toNat, by omega, by omega⟩

/-- A rectangle of cells with inclusive bounds. -/
structure Rect where
  xMin : Int
  xMax : Int
  zMin : Int
  zMax : Int
  deriving DecidableEq, Repr

namespace Rect

/-- Some lower bound exceeds its upper bound. -/
def Inverted (r : Rect) : Prop := r.xMax < r.xMin ∨ r.zMax < r.zMin

instance (r : Rect) : Decidable r.Inverted :=
  inferInstanceAs (Decidable (r.xMax < r.xMin ∨ r.zMax < r.zMin))

/-- The cell lies within both bounds. -/
def Contains (r : Rect) (c : Cell) : Prop :=
  (r.xMin ≤ c.x ∧ c.x ≤ r.xMax) ∧ (r.zMin ≤ c.z ∧ c.z ≤ r.zMax)

instance (r : Rect) (c : Cell) : Decidable (r.Contains c) :=
  inferInstanceAs (Decidable ((r.xMin ≤ c.x ∧ c.x ≤ r.xMax) ∧ (r.zMin ≤ c.z ∧ c.z ≤ r.zMax)))

/-- The north-western corner. -/
def least (r : Rect) : Cell := ⟨r.xMin, r.zMin⟩

/-- The south-eastern corner. -/
def greatest (r : Rect) : Cell := ⟨r.xMax, r.zMax⟩

/-- The cells of a rectangle in listing order. -/
def cells (r : Rect) : List Cell :=
  (between r.xMin r.xMax).flatMap fun x => (between r.zMin r.zMax).map fun z => ⟨x, z⟩

theorem mem_cells {r : Rect} {c : Cell} : c ∈ r.cells ↔ r.Contains c := by
  obtain ⟨x, z⟩ := c
  simp only [cells, List.mem_flatMap, List.mem_map, mem_between, Contains, Cell.mk.injEq]
  constructor
  · rintro ⟨x', hx, z', hz, rfl, rfl⟩
    exact ⟨hx, hz⟩
  · rintro ⟨hx, hz⟩
    exact ⟨x, hx, z, hz, rfl, rfl⟩

/-- The bounds as they are quoted in messages. -/
def text (r : Rect) : String := s!"x {r.xMin}..={r.xMax}, z {r.zMin}..={r.zMax}"

end Rect

end RobotPuzzle
