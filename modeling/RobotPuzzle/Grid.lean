import RobotPuzzle.Facing
import RobotPuzzle.Rect
import RobotPuzzle.Hazard

/-!
# Grids

A grid is a square board with walls in some of its cells and hazards in others. Walls are kept
as a list of cells in listing order without repetitions, so that the list is the set of walls.

## Main definitions

* `Grid` — size, walls and hazards
* `Grid.Contains`, `Grid.Walled`, `Grid.Passable` — where the board is, and where one may stand
* `Grid.addWall`, `Grid.addHazard` — placing walls and hazards without asking whether they fit
* `Grid.addWall?`, `Grid.addHazard?` — placing them after checking that they do

## Main results

* `Grid.walled_addWall` — a rectangle of walls adds exactly its cells
-/

namespace RobotPuzzle

/-- Adds a cell to a list in listing order, unless it is there already. -/
def insertCell (c : Cell) : List Cell → List Cell
  | [] => [c]
  | d :: ds =>
    if c = d then d :: ds
    else if c.lt d then c :: d :: ds
    else d :: insertCell c ds

theorem mem_insertCell {c e : Cell} {ds : List Cell} : e ∈ insertCell c ds ↔ e = c ∨ e ∈ ds := by
  induction ds with
  | nil => simp [insertCell]
  | cons d ds ih =>
    unfold insertCell
    split
    · next h => subst h; simp
    · split
      · simp
      · simp only [List.mem_cons, ih]
        constructor <;> rintro (h | h | h) <;> simp [h]

theorem pairwise_insertCell {c : Cell} {ds : List Cell} (h : ds.Pairwise Cell.lt) :
    (insertCell c ds).Pairwise Cell.lt := by
  induction ds with
  | nil => simp [insertCell]
  | cons d ds ih =>
    obtain ⟨hd, hds⟩ := List.pairwise_cons.mp h
    unfold insertCell
    split
    · exact h
    · next hne =>
      split
      · next hlt =>
        refine List.pairwise_cons.mpr ⟨fun e he => ?_, h⟩
        rcases List.mem_cons.mp he with rfl | he
        · exact hlt
        · exact Cell.lt_trans hlt (hd e he)
      · next hnlt =>
        refine List.pairwise_cons.mpr ⟨fun e he => ?_, ih hds⟩
        rcases mem_insertCell.mp he with rfl | he
        · -- neither before the head nor the head itself
          rcases Cell.lt_or_eq_or_gt e d with h | h | h
          · exact absurd h hnlt
          · exact absurd h hne
          · exact h
        · exact hd e he

/-- Adds several cells. -/
def insertCells (cs ds : List Cell) : List Cell := cs.foldr insertCell ds

theorem mem_insertCells {cs ds : List Cell} {e : Cell} :
    e ∈ insertCells cs ds ↔ e ∈ cs ∨ e ∈ ds := by
  induction cs with
  | nil => simp [insertCells]
  | cons c cs ih =>
    simp only [insertCells, List.foldr_cons, mem_insertCell, List.mem_cons] at *
    rw [ih, or_assoc]

theorem pairwise_insertCells {cs ds : List Cell} (h : ds.Pairwise Cell.lt) :
    (insertCells cs ds).Pairwise Cell.lt := by
  induction cs with
  | nil => exact h
  | cons c cs ih => exact pairwise_insertCell ih

/-- A square board. `walls` is in listing order without repetitions. -/
structure Grid where
  size : Int
  walls : List Cell := []
  hazards : Hazards := []
  deriving DecidableEq, Repr

/-- What keeps a board from being set up. -/
inductive SetupError
  | emptyGrid (size : Int)
  | cellSize (size : Float32)
  | invertedRect (r : Rect)
  | rectOutside (r : Rect) (size : Int)
  | hazardOutside (c : Cell) (size : Int)

namespace Grid

/-- The cell is on the board. -/
def Contains (g : Grid) (c : Cell) : Prop :=
  (0 ≤ c.x ∧ c.x < g.size) ∧ (0 ≤ c.z ∧ c.z < g.size)

instance (g : Grid) (c : Cell) : Decidable (g.Contains c) :=
  inferInstanceAs (Decidable ((0 ≤ c.x ∧ c.x < g.size) ∧ (0 ≤ c.z ∧ c.z < g.size)))

/-- The cell holds a wall. -/
def Walled (g : Grid) (c : Cell) : Prop := c ∈ g.walls

instance (g : Grid) (c : Cell) : Decidable (g.Walled c) :=
  inferInstanceAs (Decidable (c ∈ g.walls))

/-- The robot may stand in the cell: it is on the board and holds no wall. -/
def Passable (g : Grid) (c : Cell) : Prop := g.Contains c ∧ ¬ g.Walled c

instance (g : Grid) (c : Cell) : Decidable (g.Passable c) :=
  inferInstanceAs (Decidable (g.Contains c ∧ ¬ g.Walled c))

/-- The hazard of a cell. -/
def hazardAt? (g : Grid) (c : Cell) : Option Hazard := g.hazards.find? c

/-- An active fire burns in the cell. -/
def onFire (g : Grid) (c : Cell) : Bool := g.hazards.onFire c

/-- A board without walls or hazards. -/
def empty (size : Int) : Grid := { size }

/-- Fills a rectangle with walls. -/
def addWall (g : Grid) (r : Rect) : Grid := { g with walls := insertCells r.cells g.walls }

/-- Registers an active hazard. -/
def addHazard (g : Grid) (kind : HazardKind) (c : Cell) : Grid :=
  { g with hazards := g.hazards.register kind c }

/-- Deactivates the hazard of a cell, or answers `none` when there is nothing to deactivate. -/
def deactivate? (g : Grid) (c : Cell) (kind? : Option HazardKind) : Option Grid :=
  (g.hazards.deactivate? c kind?).map fun hazards => { g with hazards }

/-- Makes every hazard active again. -/
def rearm (g : Grid) : Grid := { g with hazards := g.hazards.rearm }

/-- A board of a positive size. -/
def empty? (size : Int) : Except SetupError Grid :=
  if 0 < size then .ok (empty size) else .error (.emptyGrid size)

/-- Fills a rectangle with walls if it is not inverted and lies on the board; two corners on the
board suffice for that. -/
def addWall? (g : Grid) (r : Rect) : Except SetupError Grid :=
  if r.Inverted then .error (.invertedRect r)
  else if g.Contains r.least ∧ g.Contains r.greatest then .ok (g.addWall r)
  else .error (.rectOutside r g.size)

/-- Registers an active hazard if its cell is on the board. -/
def addHazard? (g : Grid) (kind : HazardKind) (c : Cell) : Except SetupError Grid :=
  if g.Contains c then .ok (g.addHazard kind c) else .error (.hazardOutside c g.size)

@[simp] theorem walled_addWall {g : Grid} {r : Rect} {c : Cell} :
    (g.addWall r).Walled c ↔ r.Contains c ∨ g.Walled c := by
  simp [Walled, addWall, mem_insertCells, Rect.mem_cells]

@[simp] theorem walled_addHazard {g : Grid} {kind : HazardKind} {c d : Cell} :
    (g.addHazard kind c).Walled d ↔ g.Walled d := Iff.rfl

@[simp] theorem contains_addWall {g : Grid} {r : Rect} {c : Cell} :
    (g.addWall r).Contains c ↔ g.Contains c := Iff.rfl

@[simp] theorem contains_addHazard {g : Grid} {kind : HazardKind} {c d : Cell} :
    (g.addHazard kind c).Contains d ↔ g.Contains d := Iff.rfl

@[simp] theorem rearm_rearm (g : Grid) : g.rearm.rearm = g.rearm := by
  simp [rearm]

end Grid

end RobotPuzzle
