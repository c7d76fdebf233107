import RobotPuzzle.Proofs.Metering
import RobotPuzzle.Proofs.Standing
import RobotPuzzle.Scene

/-!
# Levels can be set up

A configuration is checked as a whole before it makes a level. Setting its board up asks again:
each wall and each hazard is placed only if it fits there. The two were written apart, and they
agree on every configuration. Both look at two corners of a wall only, which is as good as looking
at every cell of it.

## Main definitions

* `Grid.Holds` — a rectangle fits on a board with all its cells

## Main results

* `Grid.holds_iff_corners` — two corners decide whether a rectangle fits
* `foldlM_eq_ok_iff` — placing things one after the other succeeds if each of them fits
* `Config.grid?_eq_ok_iff` — when a board can be set up
* `Config.problem?_eq_none_iff` — when a configuration has no problem
* `level_iff_set_up` — checking a configuration agrees with setting its board up
-/

namespace RobotPuzzle

/-! ### Placing walls and hazards -/

namespace Grid

variable {g g' : Grid} {r : Rect} {c : Cell} {kind : HazardKind}

/-- The rectangle is not inverted, and every cell of it is on the board. -/
def Holds (g : Grid) (r : Rect) : Prop := ¬ r.Inverted ∧ ∀ c, r.Contains c → g.Contains c

/-- Two corners decide whether a rectangle fits, since all its cells lie between them. -/
theorem holds_iff_corners :
    g.Holds r ↔ ¬ r.Inverted ∧ g.Contains r.least ∧ g.Contains r.greatest := by
  refine and_congr_right fun hupright => ?_
  rw [Rect.Inverted] at hupright
  constructor
  · intro hcells
    -- a rectangle that is not inverted contains its own corners
    have hleast : r.Contains r.least := by
      simp only [Rect.Contains, Rect.least]
      omega
    have hgreatest : r.Contains r.greatest := by
      simp only [Rect.Contains, Rect.greatest]
      omega
    exact ⟨hcells _ hleast, hcells _ hgreatest⟩
  · rintro ⟨hleast, hgreatest⟩ c hc
    simp only [Contains, Rect.least, Rect.greatest, Rect.Contains] at *
    omega

/-- Whether a rectangle fits depends on the size of the board alone. -/
theorem holds_congr (hsize : g.size = g'.size) : g.Holds r ↔ g'.Holds r := by
  unfold Holds Contains
  rw [hsize]

theorem addWall?_eq_ok_iff : g.addWall? r = .ok g' ↔ g.Holds r ∧ g' = g.addWall r := by
  rw [holds_iff_corners, addWall?]
  split
  · next hinverted => simp [hinverted]
  · next hupright =>
    split
    · next hcorners => simp [hupright, hcorners, eq_comm]
    · next houtside => simp [hupright, houtside]

theorem addHazard?_eq_ok_iff :
    g.addHazard? kind c = .ok g' ↔ g.Contains c ∧ g' = g.addHazard kind c := by
  rw [addHazard?]
  split
  · next hinside => simp [hinside, eq_comm]
  · next houtside => simp [houtside]

theorem empty?_eq_ok_iff {size : Int} : empty? size = .ok g ↔ 0 < size ∧ g = empty size := by
  rw [empty?]
  split
  · next hpos => simp [hpos, eq_comm]
  · next hnonpos => simp [hnonpos]

end Grid

/-- A board with cells of the default size can be set up just if it has a positive size. -/
theorem Scene.exists_empty?_iff {size : Int} :
    (∃ s, Scene.empty? size Scene.defaultCellSize = .ok s) ↔ 0 < size := by
  have hcell : 0 < Scene.defaultCellSize := by decide
  simp only [Scene.empty?, bind_eq_ok_iff, Grid.empty?_eq_ok_iff, if_pos hcell]
  constructor
  · rintro ⟨_, _, ⟨hpos, -⟩, -⟩
    exact hpos
  · intro hpos
    exact ⟨_, _, ⟨hpos, rfl⟩, rfl⟩

/-- Things are placed one after the other. If what is placed does not change what fits, this
succeeds just if each of them fits at first, and then it does what placing without asking does. -/
theorem foldlM_eq_ok_iff {α β ε : Type} (place? : β → α → Except ε β) (place : β → α → β)
    {Fits : β → α → Prop}
    (one : ∀ b a b', place? b a = .ok b' ↔ Fits b a ∧ b' = place b a)
    (keep : ∀ b a a', Fits (place b a) a' ↔ Fits b a') (as : List α) (b b' : β) :
    as.foldlM place? b = .ok b' ↔ (∀ a ∈ as, Fits b a) ∧ b' = as.foldl place b := by
  induction as generalizing b with
  | nil => simp [pure, Except.pure, eq_comm]
  | cons a as ih =>
    rw [List.foldlM_cons, bind_eq_ok_iff, List.foldl_cons, List.forall_mem_cons]
    constructor
    · rintro ⟨b₁, hfirst, hrest⟩
      obtain ⟨hfits, rfl⟩ := (one b a b₁).mp hfirst
      obtain ⟨hall, heq⟩ := (ih (place b a)).mp hrest
      exact ⟨⟨hfits, fun a' ha' => (keep b a a').mp (hall a' ha')⟩, heq⟩
    · rintro ⟨⟨hfits, hall⟩, heq⟩
      have hrest : as.foldlM place? (place b a) = .ok b' :=
        (ih (place b a)).mpr ⟨fun a' ha' => (keep b a a').mpr (hall a' ha'), heq⟩
      exact ⟨place b a, (one b a _).mpr ⟨hfits, rfl⟩, hrest⟩

/-- Registering a hazard brings no other one into the register. -/
theorem Hazards.mem_register {hs : Hazards} {kind : HazardKind} {c : Cell} {h : Hazard}
    (hmem : h ∈ hs.register kind c) : h.cell = c ∨ h ∈ hs := by
  induction hs with
  | nil =>
    obtain rfl := List.mem_singleton.mp hmem
    exact .inl rfl
  | cons g gs ih =>
    unfold register at hmem
    split at hmem
    · -- the new hazard takes the place of the old one
      rcases List.mem_cons.mp hmem with rfl | hmem
      · exact .inl rfl
      · exact .inr (List.mem_cons_of_mem g hmem)
    · rcases List.mem_cons.mp hmem with rfl | hmem
      · exact .inr List.mem_cons_self
      · exact (ih hmem).imp_right (List.mem_cons_of_mem g)

/-! ### Checking and setting up -/

namespace Config

variable {c : Config} {g : Grid}

/-- The budget apart, what a check asks of a configuration is what makes its board fit together. -/
structure Fits (c : Config) : Prop where
  size : 0 < c.gridSize
  walls : ∀ r ∈ c.walls, (Grid.empty c.gridSize).Holds r
  hazards : ∀ h ∈ c.hazards, (Grid.empty c.gridSize).Contains h.cell

/-- A board can be set up if its parts fit, and it is then the described one. -/
theorem grid?_eq_ok_iff : c.grid? = .ok g ↔ c.Fits ∧ g = c.grid := by
  have hwalls := foldlM_eq_ok_iff Grid.addWall? Grid.addWall
    (fun _ _ _ => Grid.addWall?_eq_ok_iff) (fun _ _ _ => Grid.holds_congr rfl) c.walls
  have hhazards := foldlM_eq_ok_iff (fun g (h : HazardSpec) => Grid.addHazard? g h.kind h.cell)
    (fun g h => g.addHazard h.kind h.cell) (fun _ _ _ => Grid.addHazard?_eq_ok_iff)
    (fun _ _ _ => Iff.rfl) c.hazards
  -- walls do not change the size of the board, so hazards are asked for as on the empty one
  have hsize : ∀ cell, (c.walls.foldl Grid.addWall (.empty c.gridSize)).Contains cell ↔
      (Grid.empty c.gridSize).Contains cell := by
    intro cell
    rw [Grid.Contains, size_addWalls]
    rfl
  simp only [grid?, bind_eq_ok_iff, Grid.empty?_eq_ok_iff, hwalls, hhazards]
  constructor
  · rintro ⟨_, ⟨hpos, rfl⟩, _, ⟨hheld, rfl⟩, hcontained, rfl⟩
    exact ⟨⟨hpos, hheld, fun h hh => (hsize h.cell).mp (hcontained h hh)⟩, rfl⟩
  · rintro ⟨hfits, rfl⟩
    exact ⟨_, ⟨hfits.size, rfl⟩, _, ⟨hfits.walls, rfl⟩,
      fun h hh => (hsize h.cell).mpr (hfits.hazards h hh), rfl⟩

theorem wallProblem?_eq_none_iff {r : Rect} :
    c.wallProblem? r = none ↔ (Grid.empty c.gridSize).Holds r := by
  rw [Grid.holds_iff_corners, wallProblem?]
  split
  · next hinverted => simp [hinverted]
  · next hupright =>
    simp only [Option.orElse_eq_orElse, Option.orElse_eq_or, Option.or_eq_none_iff,
      outside?_eq_none]
    simp [hupright]

/-- A configuration has no problem if it allows a step, its parts fit, and robot and crystal are in
free cells. -/
theorem problem?_eq_none_iff :
    c.problem? = none ↔
      1 ≤ c.budget ∧ c.Fits ∧ c.grid.Passable c.start.cell ∧ c.grid.Passable c.crystal := by
  have hsize : (if c.gridSize ≤ 0 then some (ConfigError.emptyGrid c.gridSize) else none) = none ↔
      0 < c.gridSize := by simp
  have hbudget : (if c.budget = 0 then some ConfigError.zeroBudget else none) = none ↔
      1 ≤ c.budget := by simp [Nat.one_le_iff_ne_zero]
  simp only [problem?, Option.orElse_eq_orElse, Option.orElse_eq_or, Option.or_eq_none_iff,
    List.findSome?_eq_none_iff, wallProblem?_eq_none_iff, outside?_eq_none, walledIn?_eq_none,
    hsize, hbudget, passable_grid_iff]
  constructor
  · rintro ⟨hpos, hone, hwalls, hhazards, hrobot, hcrystal, hfree, hfree'⟩
    exact ⟨hone, ⟨hpos, hwalls, hhazards⟩, ⟨hrobot, hfree⟩, hcrystal, hfree'⟩
  · rintro ⟨hone, ⟨hpos, hwalls, hhazards⟩, ⟨hrobot, hfree⟩, hcrystal, hfree'⟩
    exact ⟨hpos, hone, hwalls, hhazards, hrobot, hcrystal, hfree, hfree'⟩

theorem exists_level_iff : (∃ l, Level.ofConfig c = .ok l) ↔ c.problem? = none := by
  constructor
  · rintro ⟨l, hl⟩
    exact (Level.ofConfig_eq_ok_iff.mp hl).1
  · intro h
    exact ⟨⟨c, h⟩, Level.ofConfig_eq_ok_iff.mpr ⟨h, rfl⟩⟩

/-- The walls of the described board are the cells of its rectangles. -/
theorem walled_grid_iff {cell : Cell} :
    c.grid.Walled cell ↔ ∃ r ∈ c.walls, r.Contains cell := by
  obtain ⟨-, hwalls⟩ := addHazards_eq (c.walls.foldl Grid.addWall (.empty c.gridSize)) c.hazards
  have hsame : c.grid.Walled cell ↔
      (c.walls.foldl Grid.addWall (.empty c.gridSize)).Walled cell := by
    rw [Grid.Walled, grid, hwalls]
    exact Iff.rfl
  rw [hsame, walled_addWalls]
  simp [Grid.Walled, Grid.empty]

theorem size_grid (c : Config) : c.grid.size = c.gridSize := by
  rw [grid, (addHazards_eq _ c.hazards).1, size_addWalls]
  rfl

/-- The hazards of the described board are in the cells that they were to be placed in. -/
theorem mem_hazards_grid {h : Hazard} (hmem : h ∈ c.grid.hazards) :
    ∃ spec ∈ c.hazards, h.cell = spec.cell := by
  have hplaced : ∀ (specs : List HazardSpec) (g : Grid),
      h ∈ (specs.foldl (fun g s => g.addHazard s.kind s.cell) g).hazards →
        (∃ s ∈ specs, h.cell = s.cell) ∨ h ∈ g.hazards := by
    intro specs
    induction specs with
    | nil => exact fun g hg => .inr hg
    | cons s specs ih =>
      intro g hg
      rcases ih _ hg with ⟨s', hs', hcell⟩ | hg
      · exact .inl ⟨s', List.mem_cons_of_mem s hs', hcell⟩
      · rcases Hazards.mem_register hg with hcell | hg
        · exact .inl ⟨s, List.mem_cons_self, hcell⟩
        · exact .inr hg
  have hwalls : ∀ (rs : List Rect) (g : Grid), (rs.foldl Grid.addWall g).hazards = g.hazards := by
    intro rs
    induction rs with
    | nil => exact fun _ => rfl
    | cons r rs ih => exact fun g => ih (g.addWall r)
  rcases hplaced c.hazards _ hmem with hspec | hwall
  · exact hspec
  · -- the empty board has no hazards, and neither do walls bring any
    rw [hwalls] at hwall
    cases hwall

end Config

/-- Checking a configuration agrees with setting its board up. There is a level just if a step is
allowed, nothing fails while the board is set up, and robot and crystal are in free cells of it.
The board of the level is then the one set up; its walls are the cells of all the rectangles, and
its walls and hazards are on it. -/
theorem level_iff_set_up (c : Config) :
    ((∃ l, Level.ofConfig c = .ok l) ↔
        1 ≤ c.budget ∧ (∃ s, Scene.empty? c.gridSize Scene.defaultCellSize = .ok s) ∧
          ∃ g, c.grid? = .ok g ∧ g.Passable c.start.cell ∧ g.Passable c.crystal) ∧
      ∀ l, Level.ofConfig c = .ok l →
        c.grid? = .ok l.world.grid ∧
          l.world.grid.size = c.gridSize ∧
          (∀ cell, l.world.grid.Walled cell ↔ ∃ r ∈ c.walls, r.Contains cell) ∧
          (∀ cell, l.world.grid.Walled cell → l.world.grid.Contains cell) ∧
          ∀ h ∈ l.world.grid.hazards, l.world.grid.Contains h.cell := by
  refine ⟨?_, fun l hl => ?_⟩
  · rw [Config.exists_level_iff, Config.problem?_eq_none_iff, Scene.exists_empty?_iff]
    simp only [Config.grid?_eq_ok_iff]
    constructor
    · rintro ⟨hone, hfits, hpassable⟩
      exact ⟨hone, hfits.size, c.grid, ⟨hfits, rfl⟩, hpassable⟩
    · rintro ⟨hone, -, g, ⟨hfits, rfl⟩, hpassable⟩
      exact ⟨hone, hfits, hpassable⟩
  · obtain ⟨hnone, rfl⟩ := Level.ofConfig_eq_ok_iff.mp hl
    obtain ⟨-, hfits, -⟩ := Config.problem?_eq_none_iff.mp hnone
    have hcontains : ∀ cell, (Grid.empty l.config.gridSize).Contains cell →
        l.world.grid.Contains cell := by
      intro cell hcell
      rw [Level.world, Config.world, Grid.Contains, Config.size_grid]
      exact hcell
    refine ⟨Config.grid?_eq_ok_iff.mpr ⟨hfits, rfl⟩, l.config.size_grid,
      fun cell => Config.walled_grid_iff, fun cell hwalled => ?_, fun h hh => ?_⟩
    · obtain ⟨r, hr, hcell⟩ := Config.walled_grid_iff.mp hwalled
      exact hcontains cell ((hfits.walls r hr).2 cell hcell)
    · obtain ⟨spec, hspec, hcell⟩ := Config.mem_hazards_grid hh
      rw [hcell]
      exact hcontains spec.cell (hfits.hazards spec hspec)

/-- Two walls that overlap and reach the edges, with a hazard registered twice in a cell of both:
the board can be set up. With bounds of the second wall exchanged it cannot. -/
theorem level_iff_set_up_overlapping :
    let c : Config :=
      { name := "Bend", gridSize := 3, budget := 1, start := ⟨⟨0, 0⟩, .east⟩, crystal := ⟨2, 2⟩
        walls := [⟨1, 1, 0, 2⟩, ⟨0, 1, 1, 1⟩], hazards := [⟨⟨1, 1⟩, .fire⟩, ⟨⟨1, 1⟩, .hole⟩] }
    let inverted : Config := { c with walls := [⟨1, 1, 0, 2⟩, ⟨1, 0, 1, 1⟩] }
    (∃ l, Level.ofConfig c = .ok l ∧ c.grid? = .ok l.world.grid ∧
        l.world.grid.walls = [⟨0, 1⟩, ⟨1, 0⟩, ⟨1, 1⟩, ⟨1, 2⟩] ∧
        ∀ h ∈ l.world.grid.hazards, l.world.grid.Contains h.cell) ∧
      ¬ ∃ l, Level.ofConfig inverted = .ok l := by
  intro c inverted
  have hsound : c.problem? = none := by decide
  have hlevel : Level.ofConfig c = .ok ⟨c, hsound⟩ := Level.ofConfig_eq_ok_iff.mpr ⟨hsound, rfl⟩
  obtain ⟨hgrid, -, -, -, hhazards⟩ := (level_iff_set_up c).2 _ hlevel
  have hwalls : c.grid.walls = [⟨0, 1⟩, ⟨1, 0⟩, ⟨1, 1⟩, ⟨1, 2⟩] := by decide
  refine ⟨⟨_, hlevel, hgrid, hwalls, hhazards⟩, fun hinverted => ?_⟩
  obtain ⟨-, -, g, hg, -⟩ := (level_iff_set_up inverted).1.mp hinverted
  have hfails : inverted.grid? = .error (.invertedRect ⟨1, 0, 1, 1⟩) := rfl
  cases hfails.symm.trans hg

end RobotPuzzle
