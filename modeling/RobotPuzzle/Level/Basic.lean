import RobotPuzzle.Level.Check

/-!
# Levels

A level is a configuration without problems, so that a world can always be built from it.

## Main definitions

* `Level` — a configuration without problems
* `Level.ofConfig` — the level of a configuration, or its first problem
* `Level.world` — the world before any run
* `Level.phaseOne` — the first level of the game
-/

namespace RobotPuzzle

/-- A configuration without problems. -/
structure Level where
  config : Config
  sound : config.problem? = none

namespace Level

/-- The level of a configuration, or the first problem of it. -/
def ofConfig (c : Config) : Except ConfigError Level :=
  match h : c.problem? with
  | some e => .error e
  | none => .ok ⟨c, h⟩

/-- What the level is called. -/
def name (l : Level) : String := l.config.name

/-- The number of steps a program may take. -/
def budget (l : Level) : Nat := l.config.budget

/-- The world before any run. -/
def world (l : Level) : World := l.config.world

/-- A corridor between two walls, with a fire halfway and the crystal at its far end. -/
def phaseOneConfig : Config where
  name := "Corridor of fire"
  gridSize := 10
  budget := 10
  start := ⟨⟨0, 5⟩, .east⟩
  crystal := ⟨9, 5⟩
  walls := [⟨0, 9, 4, 4⟩, ⟨0, 9, 6, 6⟩]
  hazards := [⟨⟨5, 5⟩, .fire⟩]

/-- The first level of the game. -/
def phaseOne : Level := ⟨phaseOneConfig, by decide⟩

theorem ofConfig_eq_ok_iff {c : Config} {l : Level} :
    ofConfig c = .ok l ↔ c.problem? = none ∧ l.config = c := by
  obtain ⟨config, sound⟩ := l
  unfold ofConfig
  split
  · next h => simp [h]
  · next h => simp [h, eq_comm]

end Level

end RobotPuzzle
