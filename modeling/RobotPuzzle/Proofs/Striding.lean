import RobotPuzzle.Proofs.Cutting
import RobotPuzzle.Proofs.Motion

/-!
# How far a move gets

A move goes on in a straight line. It enters one cell after the other as long as they are free, and
from then on it bumps into the same wall or the same edge with every step that it has left. So it
can be told beforehand what a move will come to, and a move may be divided into two that follow each
other without anybody noticing.

## Main definitions

* `Robot.along` — the cells on the line of a move
* `World.clearance` — the number of free cells on the line before the first one that is not
* `Course.of` — the course of given events and worlds
* `Divided` — commands in which some moves are divided into two

## Main results

* `World.course_move` — the course of a move that begins on the board
* `courseOf_divided` — divided moves mean the same
* `move_enters_free_cells_then_bumps` — what a run of a single move shows, and that moves may be
  divided wherever they stand
-/

namespace RobotPuzzle

open Course

/-! ### The line of a move -/

/-- The cell that is `n` cells away from the robot, ahead of it or behind. -/
def Robot.along (r : Robot) (heading : Heading) : Nat → Cell
  | 0 => r.cell
  | n + 1 => (r.along heading n).beside r.facing heading

/-- Along the line, the same is added to the coordinates in every step. -/
theorem Robot.exists_along_eq (r : Robot) (heading : Heading) :
    ∃ dx dz : Int, (dx = 0 ∧ (dz = 1 ∨ dz = -1) ∨ dz = 0 ∧ (dx = 1 ∨ dx = -1)) ∧
      ∀ n : Nat, r.along heading n = ⟨r.cell.x + n * dx, r.cell.z + n * dz⟩ := by
  obtain ⟨⟨x, z⟩, facing⟩ := r
  -- one unit step for each facing and heading
  have hline : ∀ dx dz : Int,
      (∀ c : Cell, c.beside facing heading = ⟨c.x + dx, c.z + dz⟩) →
      ∀ n : Nat, Robot.along ⟨⟨x, z⟩, facing⟩ heading n = ⟨x + n * dx, z + n * dz⟩ := by
    intro dx dz hbeside n
    induction n with
    | zero => simp [Robot.along]
    | succ n ih =>
      rw [Robot.along, ih, hbeside, Int.natCast_succ, Int.add_mul, Int.add_mul, Int.one_mul,
        Int.one_mul, Int.add_assoc, Int.add_assoc]
  cases facing <;> cases heading <;>
    exact ⟨_, _, by decide, hline _ _ fun c => rfl⟩

namespace World

variable {w : World} {heading : Heading}

/-- The number of free cells that the robot finds ahead of it or behind, before the first cell that
is not free. -/
def clearance (w : World) (heading : Heading) : Nat :=
  (List.range w.grid.size.toNat).findIdx fun i =>
    decide (¬ w.grid.Passable (w.robot.along heading (i + 1)))

/-- The world after the robot has moved `n` cells. -/
def advanced (w : World) (heading : Heading) (n : Nat) : World :=
  { w with robot := { w.robot with cell := w.robot.along heading n } }

theorem grid_advanced (w : World) (heading : Heading) (n : Nat) :
    (w.advanced heading n).grid = w.grid := rfl

theorem cell_advanced (w : World) (heading : Heading) (n : Nat) :
    (w.advanced heading n).robot.cell = w.robot.along heading n := rfl

theorem ahead_advanced (w : World) (heading : Heading) (n : Nat) :
    (w.advanced heading n).robot.ahead heading = w.robot.along heading (n + 1) :=
  Robot.ahead_eq_beside _ heading

/-- A line that begins on the board leaves it. -/
theorem not_contains_along (h : w.grid.Contains w.robot.cell) :
    ¬ w.grid.Contains (w.robot.along heading w.grid.size.toNat) := by
  obtain ⟨dx, dz, hunit, hline⟩ := w.robot.exists_along_eq heading
  obtain ⟨⟨hx, hx'⟩, hz, hz'⟩ := h
  have hsize : (w.grid.size.toNat : Int) = w.grid.size := Int.toNat_of_nonneg (by omega)
  rw [hline, hsize]
  rintro ⟨⟨hleft, hright⟩, htop, hbottom⟩
  simp only at hleft hright htop hbottom
  -- one of the coordinates has changed by the size of the board
  rcases hunit with ⟨rfl, rfl | rfl⟩ | ⟨rfl, rfl | rfl⟩ <;> omega

/-- The line is free up to its clearance. -/
theorem passable_of_lt_clearance {i : Nat} (hi : i < w.clearance heading) :
    w.grid.Passable (w.robot.along heading (i + 1)) := by
  have hindex := List.not_of_lt_findIdx hi
  rw [List.getElem_range, decide_eq_false_iff_not] at hindex
  exact Decidable.not_not.mp hindex

theorem clearance_lt (h : w.grid.Contains w.robot.cell) (heading : Heading) :
    w.clearance heading < (List.range w.grid.size.toNat).length := by
  have hsize : 0 < w.grid.size.toNat := by
    obtain ⟨⟨hx, hx'⟩, -⟩ := h
    omega
  -- the last of these cells is off the board
  refine List.findIdx_lt_length_of_exists ⟨w.grid.size.toNat - 1, ?_, ?_⟩
  · rw [List.mem_range]
    omega
  · rw [Nat.sub_add_cancel hsize, decide_eq_true_eq]
    exact fun hpassable => not_contains_along h hpassable.1

/-- The line is not free behind its clearance. -/
theorem not_passable_clearance (h : w.grid.Contains w.robot.cell) (heading : Heading) :
    ¬ w.grid.Passable (w.robot.along heading (w.clearance heading + 1)) := by
  have hlt := clearance_lt h heading
  rw [clearance] at hlt
  have hindex := of_decide_eq_true (List.findIdx_getElem (w := hlt))
  rw [List.getElem_range] at hindex
  exact hindex

/-- Up to its clearance, the line stays on the board. -/
theorem contains_along (h : w.grid.Contains w.robot.cell) {i : Nat}
    (hi : i ≤ w.clearance heading) : w.grid.Contains (w.robot.along heading i) := by
  cases i with
  | zero => exact h
  | succ i => exact (passable_of_lt_clearance hi).1

/-! ### Steps on the line -/

/-- What a step comes to behind `k` others if the line is free there. -/
def enter (w : World) (heading : Heading) (k : Nat) : Event × World :=
  (.moved (w.robot.along heading k) (w.robot.along heading (k + 1))
    (w.grid.onFire (w.robot.along heading (k + 1))), w.advanced heading (k + 1))

/-- What a step comes to behind `k` others if the line is not free there. -/
def bump (w : World) (heading : Heading) (k : Nat) : Event × World :=
  (.bumped (w.robot.along heading k) (w.robot.along heading (k + 1)), w.advanced heading k)

section Stride

variable {k : Nat} (hcontains : w.grid.Contains (w.robot.along heading k))

include hcontains

theorem stride_of_passable (hfree : w.grid.Passable (w.robot.along heading (k + 1))) :
    (w.advanced heading k).stride heading = .ok (w.enter heading k) := by
  rw [stride, grid_advanced, cell_advanced, ahead_advanced, if_pos hcontains, if_pos hfree]
  rfl

theorem stride_of_blocked (hblocked : ¬ w.grid.Passable (w.robot.along heading (k + 1))) :
    (w.advanced heading k).stride heading = .ok (w.bump heading k) := by
  rw [stride, grid_advanced, cell_advanced, ahead_advanced, if_pos hcontains, if_neg hblocked]
  rfl

end Stride

end World

/-! ### Courses of given events -/

namespace Course

/-- The course of given events, each with the world it leads to. -/
def of : List (Event × World) → Course
  | [] => .done
  | (e, w) :: rest => .step e w (of rest)

/-- The world after given events that begin in `w`. -/
def last (w : World) (steps : List (Event × World)) : World := steps.foldl (fun _ r => r.2) w

theorem last_append (w : World) (steps steps' : List (Event × World)) :
    last w (steps ++ steps') = last (last w steps) steps' := List.foldl_append

theorem of_andThen {w : World} {f : World → Course} {steps steps' : List (Event × World)}
    (h : f (last w steps) = of steps') : (of steps).andThen w f = of (steps ++ steps') := by
  induction steps generalizing w with
  | nil => exact h
  | cons r steps ih =>
    obtain ⟨e, v⟩ := r
    rw [of, andThen, List.cons_append, of]
    exact congrArg _ (ih h)

/-- Some rounds, and then some more. -/
theorem times_add (once : World → Course) (m n : Nat) (w : World) :
    times once (m + n) w = (times once m w).andThen w (times once n) := by
  induction m generalizing w with
  | zero => rw [Nat.zero_add, times, done_andThen]
  | succ m ih =>
    have hfun : times once (m + n) = fun v => (times once m v).andThen v (times once n) := funext ih
    rw [Nat.succ_add, times, times, andThen_assoc, hfun]

theorem demand_of (steps : List (Event × World)) : (of steps).demand = steps.length := by
  induction steps with
  | nil => rfl
  | cons r steps ih => rw [of, demand, ih, List.length_cons]

/-- What is seen of given events. -/
theorem log_of (steps : List (Event × World)) (w : World) (count : Nat) :
    let l := (of steps).log w count
    l.beats.map Beat.event = steps.map Prod.fst ∧ l.beats.map Beat.world = steps.map Prod.snd ∧
      l.outcome = .completed ∧ l.world = last w steps ∧ l.count = count + steps.length := by
  induction steps generalizing w count with
  | nil => exact ⟨rfl, rfl, rfl, rfl, rfl⟩
  | cons r steps ih =>
    obtain ⟨e, v⟩ := r
    obtain ⟨hevents, hworlds, houtcome, hworld, hcount⟩ := ih v (count + 1)
    refine ⟨congrArg (e :: ·) hevents, congrArg (v :: ·) hworlds, houtcome, hworld, ?_⟩
    rw [of, log, Log.after, hcount, List.length_cons]
    omega

end Course

namespace World

variable {w : World} {heading : Heading}

theorem last_enter (w : World) (heading : Heading) (k : Nat) :
    last w ((List.range k).map (w.enter heading)) = w.advanced heading k := by
  cases k with
  | zero => rfl
  | succ k => simp [last, enter, List.range_succ]

/-- Steps on a free line. -/
theorem times_stride_free (h : w.grid.Contains w.robot.cell) {k : Nat}
    (hk : k ≤ w.clearance heading) :
    times (fun v => ofStep (v.stride heading)) k w = of ((List.range k).map (w.enter heading)) := by
  -- the step that is added comes last: the cells before it are free by the hypothesis
  induction k with
  | zero => rfl
  | succ k ih =>
    have hstride := stride_of_passable (contains_along h (Nat.le_of_succ_le hk))
      (passable_of_lt_clearance hk)
    have hone : times (fun v => ofStep (v.stride heading)) 1 (w.advanced heading k) =
        of [w.enter heading k] := by
      rw [times, hstride]
      rfl
    rw [times_add, ih (Nat.le_of_succ_le hk), of_andThen (last_enter w heading k ▸ hone),
      List.range_succ, List.map_append, List.map_singleton]

/-- Steps where the line is not free. -/
theorem times_stride_blocked {k : Nat} (hcontains : w.grid.Contains (w.robot.along heading k))
    (hblocked : ¬ w.grid.Passable (w.robot.along heading (k + 1))) (n : Nat) :
    times (fun v => ofStep (v.stride heading)) n (w.advanced heading k) =
      of (List.replicate n (w.bump heading k)) := by
  induction n with
  | zero => rfl
  | succ n ih =>
    rw [times, stride_of_blocked hcontains hblocked, List.replicate_succ]
    exact congrArg (Course.step _ _) ih

/-- A move that begins on the board enters the free cells of its line one after the other, and bumps
into the first cell that is not free in all steps that it has left. -/
theorem course_move (h : w.grid.Contains w.robot.cell) {n : Nat} (hn : 1 ≤ n) :
    (Action.move heading n).course w =
      of ((List.range (min n (w.clearance heading))).map (w.enter heading) ++
        List.replicate (n - min n (w.clearance heading))
          (w.bump heading (w.clearance heading))) := by
  have hfree := times_stride_free h (Nat.min_le_right n (w.clearance heading))
  have hsplit : max n 1 =
      min n (w.clearance heading) + (n - min n (w.clearance heading)) := by omega
  rw [Action.course, hsplit, times_add, hfree]
  refine of_andThen ?_
  rw [last_enter]
  rcases Nat.le_total n (w.clearance heading) with hle | hle
  · -- the line is free for the whole move
    rw [Nat.min_eq_left hle, Nat.sub_self]
    rfl
  · rw [Nat.min_eq_right hle]
    exact times_stride_blocked (contains_along h (Nat.le_refl _)) (not_passable_clearance h _) _

end World

/-! ### Divided moves -/

/-- Commands of which the second ones are the first ones, but that some moves, at any depth, are
divided into two. -/
inductive Divided : List Command → List Command → Prop
  | nil : Divided [] []
  | move {heading : Heading} {a b : Nat} {cs ds : List Command} :
    1 ≤ a → 1 ≤ b → Divided cs ds →
      Divided (.act (.move heading (a + b)) :: cs)
        (.act (.move heading a) :: .act (.move heading b) :: ds)
  | act {a : Action} {cs ds : List Command} : Divided cs ds → Divided (.act a :: cs) (.act a :: ds)
  | loop {count : Nat} {body body' cs ds : List Command} :
    Divided body body' → Divided cs ds → Divided (.loop count body :: cs) (.loop count body' :: ds)
  | branch {negated : Bool} {thenDo thenDo' elseDo elseDo' cs ds : List Command} :
    Divided thenDo thenDo' → Divided elseDo elseDo' → Divided cs ds →
      Divided (.branch negated thenDo elseDo :: cs) (.branch negated thenDo' elseDo' :: ds)

section Divided

variable {cs ds : List Command}

theorem workOf_divided (h : Divided cs ds) : workOf cs = workOf ds := by
  induction h with
  | nil => rfl
  | move _ _ _ ih => simp only [workOf, Command.work, Action.work, ih, Nat.add_assoc]
  | act _ ih => simp only [workOf, ih]
  | loop _ _ ihBody ih => simp only [workOf, Command.work, ihBody, ih]
  | branch _ _ _ ihThen ihElse ih => simp only [workOf, Command.work, ihThen, ihElse, ih]

/-- A move goes on where another one in the same direction has ended. -/
theorem course_move_add (heading : Heading) {a b : Nat} (ha : 1 ≤ a) (hb : 1 ≤ b) (w : World) :
    (Action.move heading (a + b)).course w =
      ((Action.move heading a).course w).andThen w (Action.move heading b).course := by
  have hsum : max (a + b) 1 = max a 1 + max b 1 := by omega
  rw [Action.course, Action.course, Action.course, hsum, times_add]

/-- Divided moves mean the same. -/
theorem courseOf_divided (h : Divided cs ds) : courseOf cs = courseOf ds := by
  induction h with
  | nil => rfl
  | move ha hb _ ih =>
    funext w
    simp only [courseOf, Command.course, course_move_add _ ha hb, andThen_assoc, ih]
  | act _ ih => simp only [courseOf, ih]
  | loop _ _ ihBody ih => simp only [courseOf, Command.course, ihBody, ih]
  | branch _ _ _ ihThen ihElse ih => simp only [courseOf, Command.course, ihThen, ihElse, ih]

end Divided

/-! ### Runs of a move -/

namespace World

variable {w : World} {heading : Heading}

/-- The world after a step behind `i` others, whether or not the line is free there. -/
theorem worlds_of_steps (w : World) (heading : Heading) (n k : Nat) :
    ((List.range (min n k)).map (w.enter heading) ++
        List.replicate (n - min n k) (w.bump heading k)).map Prod.snd =
      (List.range n).map fun i => w.advanced heading (min (i + 1) k) := by
  have hlength : ((List.range (min n k)).map (w.enter heading)).length = min n k := by
    rw [List.length_map, List.length_range]
  refine List.ext_getElem ?_ fun i hi hi' => ?_
  · rw [List.length_map, List.length_append, hlength, List.length_replicate, List.length_map,
      List.length_range]
    omega
  · rw [List.length_map, List.length_range] at hi'
    rw [List.getElem_map, List.getElem_map, List.getElem_range]
    -- the robot enters the cells of the line as far as they are free, and then it stays
    by_cases hfree : i < min n k
    · have hentered : min (i + 1) k = i + 1 := by omega
      rw [List.getElem_append_left (hlength.symm ▸ hfree), List.getElem_map, List.getElem_range,
        hentered]
      rfl
    · have hbumped : min (i + 1) k = k := by omega
      rw [List.getElem_append_right (hlength.symm ▸ Nat.le_of_not_lt hfree),
        List.getElem_replicate, hbumped]
      rfl

theorem last_steps (w : World) (heading : Heading) (n k : Nat) :
    last w ((List.range (min n k)).map (w.enter heading) ++
      List.replicate (n - min n k) (w.bump heading k)) = w.advanced heading (min n k) := by
  rcases Nat.le_total n k with hle | hle
  · rw [Nat.min_eq_left hle, Nat.sub_self, List.replicate_zero, List.append_nil, last_enter]
  · -- a bump leaves the robot where the free cells have brought it
    have hbumps : ∀ m, last (w.advanced heading k) (List.replicate m (w.bump heading k)) =
        w.advanced heading k := by
      intro m
      induction m with
      | zero => rfl
      | succ m ih => exact ih
    rw [Nat.min_eq_right hle, last_append, last_enter, hbumps]

/-- What a machine with a single move shows. -/
theorem watch_move (h : w.grid.Contains w.robot.cell) {n : Nat} (hn : 1 ≤ n) {c : Context}
    (hc : c.cancelled = false) (hb : c.count + n ≤ c.budget) :
    let k := w.clearance heading
    ({ world := w, executor := .ofCommands [.act (.move heading n)], context := c } :
        Machine).watch none =
      (of ((List.range (min n k)).map (w.enter heading) ++
        List.replicate (n - min n k) (w.bump heading k))).log w c.count := by
  intro k
  have hcourse : courseOf [.act (.move heading n)] w = _ :=
    (congrFun (courseOf_singleton _) w).trans (course_move h hn)
  rw [machine_follows_course hc, hcourse]
  rw [hcourse, demand_of]
  simp only [List.length_append, List.length_map, List.length_range, List.length_replicate]
  omega

end World

/-- A single move that begins on the board, is not cancelled and is within the budget enters the
free cells of its line one after the other, as many as there are or as it has cells, and bumps into
the cell behind them in all other steps. Only the place of the robot changes. And moves may be
divided into two at any depth of a program: it costs the same and shows the same, in every world,
under every context and cancellation. -/
theorem move_enters_free_cells_then_bumps :
    (∀ (w : World) (heading : Heading) (n : Nat) (c : Context),
        w.grid.Contains w.robot.cell → 1 ≤ n → c.cancelled = false → c.count + n ≤ c.budget →
          let cell := w.robot.along heading
          let k := w.clearance heading
          let l := ({ world := w, executor := .ofCommands [.act (.move heading n)], context := c } :
            Machine).watch none
          ((∀ i, i < k → w.grid.Passable (cell (i + 1))) ∧ ¬ w.grid.Passable (cell (k + 1))) ∧
            l.beats.map Beat.event =
              (List.range (min n k)).map (fun i =>
                .moved (cell i) (cell (i + 1)) (w.grid.onFire (cell (i + 1)))) ++
              List.replicate (n - min n k) (.bumped (cell k) (cell (k + 1))) ∧
            (l.beats.map Beat.world = (List.range n).map fun i =>
              { w with robot := { w.robot with cell := cell (min (i + 1) k) } }) ∧
            l.outcome = .completed ∧
            l.world = { w with robot := { w.robot with cell := cell (min n k) } } ∧
            l.count = c.count + n) ∧
      ∀ cs ds, Divided cs ds →
        costOf cs = costOf ds ∧ ∀ (w : World) (c : Context) (stop? : Option Nat),
          ({ world := w, executor := .ofCommands cs, context := c } : Machine).watch stop? =
            ({ world := w, executor := .ofCommands ds, context := c } : Machine).watch stop? := by
  refine ⟨fun w heading n c h hn hc hb => ?_, fun cs ds hdivided => ⟨?_, fun w c stop? => ?_⟩⟩
  · intro cell k l
    have hl : l = (of ((List.range (min n k)).map (w.enter heading) ++
        List.replicate (n - min n k) (w.bump heading k))).log w c.count :=
      World.watch_move h hn hc hb
    obtain ⟨hevents, hworlds, houtcome, hworld, hcount⟩ := log_of
      ((List.range (min n k)).map (w.enter heading) ++
        List.replicate (n - min n k) (w.bump heading k)) w c.count
    rw [← hl] at hevents hworlds houtcome hworld hcount
    refine ⟨⟨fun i => World.passable_of_lt_clearance, World.not_passable_clearance h heading⟩, ?_,
      hworlds.trans (World.worlds_of_steps w heading n k), houtcome,
      hworld.trans (World.last_steps w heading n k), ?_⟩
    · rw [hevents, List.map_append, List.map_map, List.map_replicate]
      rfl
    · rw [hcount]
      simp only [List.length_append, List.length_map, List.length_range, List.length_replicate]
      omega
  · rw [costOf_eq, costOf_eq, workOf_divided hdivided]
  · rw [watch_eq_under, watch_eq_under, courseOf_divided hdivided]

/-- Eleven cells along the corridor of the first level, which ends after nine of them, and a loop
with a move back that is divided into two. -/
theorem move_enters_free_cells_then_bumps_corridor :
    let w := Level.phaseOne.world
    let c : Context := { budget := 12, count := 1 }
    let l := ({ world := w, executor := .ofCommands [.act (.move .forward 11)], context := c } :
      Machine).watch none
    let cs : List Command := [.loop 2 [.act (.move .backward 5), .act .cover]]
    let ds : List Command :=
      [.loop 2 [.act (.move .backward 2), .act (.move .backward 3), .act .cover]]
    (w.grid.Contains w.robot.cell ∧ 1 ≤ 11 ∧ c.cancelled = false ∧ c.count + 11 ≤ c.budget) ∧
      (l.beats.map Beat.event =
          ((List.range 9).map fun i => .moved ⟨i, 5⟩ ⟨i + 1, 5⟩ (i == 4)) ++
            [.bumped ⟨9, 5⟩ ⟨10, 5⟩, .bumped ⟨9, 5⟩ ⟨10, 5⟩] ∧
        l.outcome = .completed ∧
        l.world = { w with robot := { w.robot with cell := ⟨9, 5⟩ } } ∧ l.count = 12) ∧
      Divided cs ds ∧ costOf cs = costOf ds ∧
        ({ world := w, executor := .ofCommands cs, context := c } : Machine).watch (some 7) =
          ({ world := w, executor := .ofCommands ds, context := c } : Machine).watch (some 7) := by
  intro w c l cs ds
  have hcontains : w.grid.Contains w.robot.cell := by decide
  have hbudget : c.count + 11 ≤ c.budget := by decide
  obtain ⟨hmove, hdivide⟩ := move_enters_free_cells_then_bumps
  obtain ⟨-, hevents, -, houtcome, hworld, hcount⟩ :=
    hmove w .forward 11 c hcontains (by decide) rfl hbudget
  have hdivided : Divided cs ds :=
    .loop (.move (a := 2) (b := 3) (by decide) (by decide) (.act .nil)) .nil
  obtain ⟨hcost, hsame⟩ := hdivide cs ds hdivided
  exact ⟨⟨hcontains, by decide, rfl, hbudget⟩,
    ⟨hevents.trans (by decide +kernel), houtcome, hworld.trans (by decide +kernel), hcount⟩,
    hdivided, hcost, hsame w c (some 7)⟩

end RobotPuzzle
