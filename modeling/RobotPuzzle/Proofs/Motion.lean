import RobotPuzzle.Level.Basic
import RobotPuzzle.Proofs.Quenching
import RobotPuzzle.Proofs.Stepping

/-!
# How the robot moves

The robot's place changes by moves only, one cell at a time: ahead of where the robot looks at that
moment or the other way, as the command says that the move belongs to. The cell it enters is on the
board and free. A bump names a cell that is not, and the robot stays. Wherever a run starts and
whatever it does, it is told truly where the robot is; a robot that starts on the board stays on
it, and one that starts in a free cell never stands in a wall.

## Main definitions

* `Cell.beside` — the neighbour of a cell ahead or behind
* `Event.Places` — what an event says of the robot's place before and after it
* `MovesIn` — commands in which there is a move with a heading

## Main results

* `Effect.places` — the event of an action tells where the robot was and is
* `movesIn_of_next?` — taking out the first action invents no moves
* `moves_stay_clear_of_walls` — along every run events tell the robot's place, and it is kept free
-/

namespace RobotPuzzle

/-- The neighbour of `c` for somebody who looks to `f`: the cell ahead, or the one behind. -/
def Cell.beside (c : Cell) (f : Facing) : Heading → Cell
  | .forward => ⟨c.x + f.offset.1, c.z + f.offset.2⟩
  | .backward => ⟨c.x - f.offset.1, c.z - f.offset.2⟩

theorem Robot.ahead_eq_beside (r : Robot) (heading : Heading) :
    r.ahead heading = r.cell.beside r.facing heading := by
  cases heading with
  | forward => rfl
  | backward =>
    -- half a turn negates the offset
    rw [ahead, Cell.beside, Cell.shift, Facing.offset_opposite, Int.sub_eq_add_neg,
      Int.sub_eq_add_neg]

/-- What an event of an action in `w` that leads to `v` says of the robot's place. -/
def Event.Places (w v : World) (a : Action) : Event → Prop
  | .moved source target burning =>
    (source = w.robot.cell ∧ w.grid.Contains source) ∧
      (target = v.robot.cell ∧ w.grid.Contains target ∧ ¬ w.grid.Walled target) ∧
      (∃ heading cells, a = .move heading cells ∧ target = source.beside w.robot.facing heading) ∧
      (burning = true ↔ ∃ h, v.grid.hazardAt? target = some h ∧ h.active = true ∧ h.kind = .fire)
  | .bumped stays wall =>
    (stays = w.robot.cell ∧ v.robot.cell = stays) ∧
      (∃ heading cells, a = .move heading cells ∧ wall = stays.beside w.robot.facing heading) ∧
      (¬ w.grid.Contains wall ∨ w.grid.Walled wall)
  | _ => v.robot.cell = w.robot.cell

namespace Effect

variable {w v : World} {a : Action} {e : Event}

/-- The event of an action tells where the robot was and is. -/
theorem places (h : Effect w a e v) : e.Places w v a := by
  cases h with
  | @moved heading cells inside free =>
    exact ⟨⟨rfl, inside⟩, ⟨rfl, free.1, free.2⟩,
      ⟨heading, cells, rfl, w.robot.ahead_eq_beside heading⟩, Grid.onFire_iff⟩
  | @bumped heading cells inside blocked =>
    refine ⟨⟨rfl, rfl⟩, ⟨heading, cells, rfl, w.robot.ahead_eq_beside heading⟩, ?_⟩
    by_cases hwalled : w.grid.Walled (w.robot.ahead heading)
    · exact .inr hwalled
    · exact .inl fun hcontains => blocked ⟨hcontains, hwalled⟩
  | turnedLeft | turnedRight | collected | collectMissed | extinguished | extinguishMissed |
    covered | coverMissed => exact rfl

/-- An action leaves size and walls of the board alone. -/
theorem board (h : Effect w a e v) : v.grid.size = w.grid.size ∧ v.grid.walls = w.grid.walls := by
  cases h with
  | extinguished hfire =>
    obtain ⟨hazards, -, rfl⟩ := Option.map_eq_some_iff.mp hfire
    exact ⟨rfl, rfl⟩
  | covered hhazard =>
    obtain ⟨hazards, -, rfl⟩ := Option.map_eq_some_iff.mp hhazard
    exact ⟨rfl, rfl⟩
  | _ => exact ⟨rfl, rfl⟩

theorem contains_iff (h : Effect w a e v) {c : Cell} :
    v.grid.Contains c ↔ w.grid.Contains c := by
  unfold Grid.Contains
  rw [h.board.1]

theorem passable_iff (h : Effect w a e v) {c : Cell} :
    v.grid.Passable c ↔ w.grid.Passable c := by
  unfold Grid.Passable Grid.Walled
  rw [h.contains_iff, h.board.2]

/-- The robot stays where it is or enters a free cell. -/
theorem cell_eq_or_passable (h : Effect w a e v) :
    v.robot.cell = w.robot.cell ∨ w.grid.Passable v.robot.cell := by
  cases h with
  | moved inside free => exact .inr free
  | _ => exact .inl rfl

end Effect

/-! ### Moves of a program -/

mutual

/-- A command has a move with a heading, at any depth. -/
def Command.Moves (heading : Heading) : Command → Prop
  | .act a => ∃ cells, a = .move heading cells
  | .loop _ body => MovesIn heading body
  | .branch _ thenDo elseDo => MovesIn heading thenDo ∨ MovesIn heading elseDo

/-- Some commands have a move with a heading, at any depth. -/
def MovesIn (heading : Heading) : List Command → Prop
  | [] => False
  | c :: cs => c.Moves heading ∨ MovesIn heading cs

end

section Moves

variable {heading : Heading} {a : Action} {w : World} {cs ds rest : List Command}

theorem movesIn_append : MovesIn heading (cs ++ ds) ↔ MovesIn heading cs ∨ MovesIn heading ds := by
  induction cs with
  | nil => simp [MovesIn]
  | cons c cs ih => simp only [List.cons_append, MovesIn, ih, or_assoc]

theorem movesIn_of_rounds {n : Nat} (h : MovesIn heading (rounds n cs)) : MovesIn heading cs := by
  rw [rounds_eq] at h
  induction n with
  | zero => exact h.elim
  | succ n ih =>
    rw [List.replicate_succ, List.flatten_cons, movesIn_append] at h
    exact h.elim id ih

/-- What is left of an action goes on with its heading. -/
theorem Action.moves_of_rest (h : MovesIn heading a.rest) : (Command.act a).Moves heading := by
  cases a with
  | move own cells =>
    match cells with
    | 0 => exact h.elim
    | 1 => exact h.elim
    | n + 2 =>
      obtain ⟨⟨m, hmove⟩⟩ | hnone := h
      · cases hmove
        exact ⟨n + 2, rfl⟩
      · exact hnone.elim
  | _ => exact h.elim

/-- The first action of some commands and the commands after it have no other moves than they. -/
theorem movesIn_of_next? (h : next? w cs = some (a, rest))
    (hmoves : (Command.act a).Moves heading ∨ MovesIn heading rest) : MovesIn heading cs := by
  fun_induction next? w cs with
  | case1 => cases h
  | case2 b ds =>
    cases h
    exact hmoves
  | case3 n body ds ih =>
    rcases movesIn_append.mp (ih h) with hbody | hds
    · exact .inl (movesIn_of_rounds hbody)
    · exact .inr hds
  | case4 negated thenDo elseDo ds ih =>
    rcases movesIn_append.mp (ih h) with hblock | hds
    · refine .inl ?_
      split at hblock
      · exact .inl hblock
      · exact .inr hblock
    · exact .inr hds

end Moves

/-! ### Whole runs -/

namespace Machine

variable {m : Machine}

/-- What is pending after a step has no other moves than what was pending before it. -/
theorem movesIn_step {heading : Heading} (h : MovesIn heading m.step.2.executor.pending) :
    MovesIn heading m.executor.pending := by
  rcases hstep : m.step with ⟨s, m'⟩
  rw [hstep] at h
  cases advance_of_step hstep with
  | ended reached => exact h
  | performed live untold due left effect =>
    exact movesIn_of_next? due ((movesIn_append.mp h).imp_left Action.moves_of_rest)
  | cancelled | completed | spent | faulted => exact h.elim

/-- The robot is on the board, and being off it has not ended the run. -/
structure Inside (m : Machine) : Prop where
  contains : m.world.grid.Contains m.world.robot.cell
  not_offGrid : ∀ c, m.executor.outcome? ≠ some (.failed (.offGrid c))

theorem Inside.step (h : m.Inside) : m.step.2.Inside := by
  rcases hstep : m.step with ⟨s, m'⟩
  cases advance_of_step hstep with
  | ended reached => exact h
  | cancelled | completed | spent => exact ⟨h.contains, by simp [finish]⟩
  | faulted live untold due left fault =>
    -- the only fault of an action is a robot off the board
    exact absurd h.contains (Action.perform_eq_error_iff.mp fault).2.1
  | performed live untold due left effect =>
    refine ⟨effect.contains_iff.mpr ?_, fun _ => (Option.some_ne_none _).symm⟩
    rcases effect.cell_eq_or_passable with hsame | hpassable
    · rw [hsame]
      exact h.contains
    · exact hpassable.1

/-- The robot stands in a free cell of the board. -/
def Clear (m : Machine) : Prop := m.world.grid.Passable m.world.robot.cell

theorem Clear.step (h : m.Clear) : m.step.2.Clear := by
  rcases hstep : m.step with ⟨s, m'⟩
  cases advance_of_step hstep with
  | ended | cancelled | completed | spent | faulted => exact h
  | performed live untold due left effect =>
    refine effect.passable_iff.mpr ?_
    rcases effect.cell_eq_or_passable with hsame | hpassable
    · rw [hsame]
      exact h
    · exact hpassable

end Machine

open Machine

/-- Along every run of some commands, whatever the world and the context and however often it is
cancelled: a step that reports an event is one of the first action pending, a move of a heading
that the commands have, and the event tells the robot's place; an end changes nothing. A robot in a
free cell stays in free cells, and the moves of one on the board are no fault. -/
theorem moves_stay_clear_of_walls (w : World) (cs : List Command) (c : Context)
    (ts : List Touch) :
    let start : Machine := { world := w, executor := .ofCommands cs, context := c }
    let m := start.handled ts
    (∀ e, m.step.1 = .applied e → ∃ a rest, next? m.world m.executor.pending = some (a, rest) ∧
        (∀ heading cells, a = .move heading cells → MovesIn heading cs) ∧
        e.Places m.world m.step.2.world a) ∧
      (∀ o, m.step.1 = .finished o → m.step.2.world = m.world) ∧
      (w.grid.Passable w.robot.cell → m.world.grid.Passable m.world.robot.cell) ∧
      (w.grid.Contains w.robot.cell → ∀ cell, m.step.1 ≠ .finished (.failed (.offGrid cell))) := by
  intro start m
  refine ⟨fun e he => ?_, fun o ho => ?_, fun hclear => ?_, fun hinside cell hoff => ?_⟩
  · have hmoves : ∀ heading, MovesIn heading m.executor.pending → MovesIn heading cs :=
      handled_induction (motive := fun m => ∀ heading, MovesIn heading m.executor.pending →
          MovesIn heading cs)
        (fun _ h => h) (fun m ih heading h => ih heading (movesIn_step h)) (fun _ ih => ih) ts
    rcases hstep : m.step with ⟨s, m'⟩
    rw [hstep] at he
    obtain rfl : s = .applied e := he
    cases advance_of_step hstep with
    | @performed a rest _ _ live untold due left effect =>
      refine ⟨a, rest, due, fun heading cells ha => ?_, effect.places⟩
      exact hmoves heading (movesIn_of_next? due (.inl ⟨cells, ha⟩))
  · exact (step_of_finished (Prod.ext ho rfl)).1
  · have hstart : start.Clear := hclear
    exact handled_induction (motive := Clear) hstart (fun _ h => h.step) (fun _ h => h) ts
  · have hstart : start.Inside := ⟨hinside, fun _ => (Option.some_ne_none _).symm⟩
    have hnow : m.Inside :=
      handled_induction (motive := Inside) hstart (fun _ h => h.step)
        (fun _ h => ⟨h.contains, h.not_offGrid⟩) ts
    exact hnow.step.not_offGrid cell (step_of_finished (Prod.ext hoff rfl)).2.2

/-- The second cell of a move backward, after half a turn: the robot goes on to the east. -/
theorem moves_stay_clear_of_walls_backward :
    let w := Level.phaseOne.world
    let cs : List Command :=
      [.loop 2 [.act .turnLeft], .branch true [.act (.move .backward 2)] [], .act .collect]
    let start : Machine := { world := w, executor := .ofCommands cs, context := { budget := 9 } }
    let m := start.handled [.step, .step, .step]
    let last := start.handled [.step, .step, .step, .step, .step]
    (m.step.1 = .applied (.moved ⟨1, 5⟩ ⟨2, 5⟩ false) ∧
        ∃ a rest, next? m.world m.executor.pending = some (a, rest) ∧
          (∀ heading cells, a = .move heading cells → MovesIn heading cs) ∧
          (Event.moved ⟨1, 5⟩ ⟨2, 5⟩ false).Places m.world m.step.2.world a) ∧
      (last.step.1 = .finished .completed ∧ last.step.2.world = last.world) ∧
      (w.grid.Passable w.robot.cell ∧ last.world.grid.Passable last.world.robot.cell) ∧
      (w.grid.Contains w.robot.cell ∧
        ∀ cell, last.step.1 ≠ .finished (.failed (.offGrid cell))) := by
  intro w cs start m last
  let c : Context := { budget := 9 }
  have hmoved : m.step.1 = .applied (.moved ⟨1, 5⟩ ⟨2, 5⟩ false) := by decide +kernel
  have hlast : last.step.1 = .finished .completed := by decide +kernel
  have hfree : w.grid.Passable w.robot.cell := by decide
  obtain ⟨hplaces, -⟩ := moves_stay_clear_of_walls w cs c [.step, .step, .step]
  obtain ⟨-, hend, hclear, hinside⟩ :=
    moves_stay_clear_of_walls w cs c [.step, .step, .step, .step, .step]
  exact ⟨⟨hmoved, hplaces _ hmoved⟩, ⟨hlast, hend _ hlast⟩, ⟨hfree, hclear hfree⟩, hfree.1,
    hinside hfree.1⟩

end RobotPuzzle
