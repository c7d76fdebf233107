import RobotPuzzle.Level.Basic
import RobotPuzzle.Run.Machine

/-!
# Standing in a free cell

A robot stands in a free cell of the board before any run, as the check of a configuration
promises. No action takes it out of one, and a reset puts it back into one. So no action of a
robot that stands well is ever a fault.

## Main definitions

* `World.Standing` — the robot stands in a free cell and starts in one

## Main results

* `Action.perform_standing` — every action succeeds and keeps the robot in a free cell
* `Level.standing_world` — a level's robot stands in a free cell
-/

namespace RobotPuzzle

namespace Grid

variable {g g' : Grid} {c d : Cell}

/-- Only size and walls decide where one may stand. -/
theorem passable_congr (hsize : g.size = g'.size) (hwalls : g.walls = g'.walls) :
    g.Passable c ↔ g'.Passable c := by
  unfold Passable Contains Walled
  rw [hsize, hwalls]

theorem passable_of_deactivate? {kind? : Option HazardKind} (h : g.deactivate? d kind? = some g') :
    g'.Passable c ↔ g.Passable c := by
  obtain ⟨hazards, -, rfl⟩ := Option.map_eq_some_iff.mp h
  exact passable_congr rfl rfl

end Grid

/-- The robot stands in a free cell of the board, and so it does at its start. -/
structure World.Standing (w : World) : Prop where
  robot : w.grid.Passable w.robot.cell
  spawn : w.grid.Passable w.spawn.cell

namespace World

variable {w : World}

theorem Standing.reset (h : w.Standing) : w.reset.Standing := ⟨h.spawn, h.spawn⟩

/-- One cell of a move succeeds, and a wall or the edge keeps the robot where it is. -/
theorem Standing.stride (h : w.Standing) (heading : Heading) :
    ∃ e w', w.stride heading = .ok (e, w') ∧ w'.Standing := by
  unfold World.stride
  rw [if_pos h.robot.1]
  by_cases hp : w.grid.Passable (w.robot.ahead heading)
  · rw [if_pos hp]
    exact ⟨_, _, rfl, hp, h.spawn⟩
  · rw [if_neg hp]
    exact ⟨_, _, rfl, h⟩

/-- A world in which only hazards changed. -/
theorem Standing.of_deactivate? (h : w.Standing) {c : Cell} {kind? : Option HazardKind} {g : Grid}
    (hg : w.grid.deactivate? c kind? = some g) : ({ w with grid := g } : World).Standing :=
  ⟨(Grid.passable_of_deactivate? hg).mpr h.robot, (Grid.passable_of_deactivate? hg).mpr h.spawn⟩

end World

/-- An action of a robot in a free cell is never a fault and leaves it in a free cell. -/
theorem Action.perform_standing {w : World} (h : w.Standing) (a : Action) :
    ∃ e w', a.perform w = .ok (e, w') ∧ w'.Standing := by
  cases a with
  | move heading cells => exact h.stride heading
  | turnLeft => exact ⟨_, _, rfl, h.robot, h.spawn⟩
  | turnRight => exact ⟨_, _, rfl, h.robot, h.spawn⟩
  | collect =>
    simp only [Action.perform]
    split
    · exact ⟨_, _, rfl, h.robot, h.spawn⟩
    · exact ⟨_, _, rfl, h⟩
  | extinguish =>
    simp only [Action.perform]
    split
    · next hg => exact ⟨_, _, rfl, h.of_deactivate? hg⟩
    · exact ⟨_, _, rfl, h⟩
  | cover =>
    simp only [Action.perform]
    split
    · next hg => exact ⟨_, _, rfl, h.of_deactivate? hg⟩
    · exact ⟨_, _, rfl, h⟩

namespace Config

variable {c : Config} {cell : Cell}

theorem walled_addWalls (g : Grid) (rs : List Rect) :
    (rs.foldl Grid.addWall g).Walled cell ↔ (∃ r ∈ rs, r.Contains cell) ∨ g.Walled cell := by
  induction rs generalizing g with
  | nil => simp
  | cons r rs ih =>
    simp only [List.foldl_cons, ih, Grid.walled_addWall, List.mem_cons, or_and_right, exists_or,
      exists_eq_left]
    rw [← or_assoc, or_comm (a := ∃ s, s ∈ rs ∧ s.Contains cell)]

theorem size_addWalls (g : Grid) (rs : List Rect) : (rs.foldl Grid.addWall g).size = g.size := by
  induction rs generalizing g with
  | nil => rfl
  | cons r rs ih => exact ih (g.addWall r)

/-- Placing hazards leaves size and walls alone. -/
theorem addHazards_eq (g : Grid) (hs : List HazardSpec) :
    (hs.foldl (fun g h => g.addHazard h.kind h.cell) g).size = g.size ∧
      (hs.foldl (fun g h => g.addHazard h.kind h.cell) g).walls = g.walls := by
  induction hs generalizing g with
  | nil => exact ⟨rfl, rfl⟩
  | cons h hs ih => exact ih (g.addHazard h.kind h.cell)

/-- One may stand where the described board has no wall. -/
theorem passable_grid_iff :
    c.grid.Passable cell ↔
      (Grid.empty c.gridSize).Contains cell ∧ ¬ ∃ r ∈ c.walls, r.Contains cell := by
  obtain ⟨hsize, hwalls⟩ :=
    addHazards_eq (c.walls.foldl Grid.addWall (.empty c.gridSize)) c.hazards
  have hcongr : c.grid.Passable cell ↔
      (c.walls.foldl Grid.addWall (.empty c.gridSize)).Passable cell :=
    Grid.passable_congr hsize hwalls
  rw [hcongr, Grid.Passable, walled_addWalls, Grid.Contains, size_addWalls]
  simp [Grid.Contains, Grid.Walled, Grid.empty]

theorem outside?_eq_none {what : Placed} :
    c.outside? what cell = none ↔ (Grid.empty c.gridSize).Contains cell := by
  simp [outside?]

theorem walledIn?_eq_none {what : Placed} :
    c.walledIn? what cell = none ↔ ¬ ∃ r ∈ c.walls, r.Contains cell := by
  simp [walledIn?]

/-- A configuration without problems puts the robot into a free cell. -/
theorem passable_start (h : c.problem? = none) : c.grid.Passable c.start.cell := by
  simp only [problem?, Option.orElse_eq_orElse, Option.orElse_eq_or, Option.or_eq_none_iff] at h
  -- of all the checks, two are about the cell of the start
  obtain ⟨-, -, -, -, hinside, -, hfree, -⟩ := h
  exact passable_grid_iff.mpr ⟨outside?_eq_none.mp hinside, walledIn?_eq_none.mp hfree⟩

end Config

/-- Before any run the robot of a level stands in a free cell. -/
theorem Level.standing_world (l : Level) : l.world.Standing :=
  ⟨Config.passable_start l.sound, Config.passable_start l.sound⟩

end RobotPuzzle
