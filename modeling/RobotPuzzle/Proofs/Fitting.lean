import RobotPuzzle.Proofs.Motion
import RobotPuzzle.Proofs.Spending

/-!
# Steps in 32 bits

The numbers of a machine have 32 bits: the size of the board and the coordinates with a sign, the
cells of a move, the rounds of a repetition, the budget and the count of steps without. A step adds
to coordinates, takes from the cells of a move and adds to the count, and whether the result has 32
bits too is asked at none of these places. Here the step is carried out with operations that have no
result if it does not. It comes to the same as the step without them: the next cell is looked for
only from a cell on the board, a cell is taken from a move only if more than one is left, and a step
is counted only if the budget has room for it.

How many commands there are once those of a repetition are written out for each of its rounds, which
is the number of commands times the number of rounds, is not spoken of here. That product is only
asked for to have room for the commands, and no number of a machine comes of it.

## Main definitions

* `int32?`, `counter?` — what an operation on numbers of 32 bits gives, unless it overflows
* `Action.perform?`, `Action.rest?`, `Machine.step?` — a step whose operations may overflow
* `Machine.Fits` — a machine whose numbers have 32 bits

## Main results

* `Action.perform?_eq`, `Action.rest?_eq` — the operations of an action do not overflow
* `Machine.Fits.step?_eq`, `Machine.Fits.step` — no step overflows, and every number still fits
* `handled_never_overflows` — nor does any later step, and the count stays within the budget
-/

namespace RobotPuzzle

/-! ### Operations that may overflow -/

/-- The integer fits into 32 bits with a sign. -/
def FitsInt32 (n : Int) : Prop := -2147483648 ≤ n ∧ n ≤ 2147483647

instance (n : Int) : Decidable (FitsInt32 n) :=
  inferInstanceAs (Decidable (-2147483648 ≤ n ∧ n ≤ 2147483647))

/-- The result of an operation on numbers of 32 bits with a sign, unless it overflows. -/
def int32? (n : Int) : Option Int := if FitsInt32 n then some n else none

/-- The result of an operation on counters of 32 bits, unless it overflows. -/
def counter? (n : Int) : Option Nat := if 0 ≤ n ∧ n ≤ counterLimit then some n.toNat else none

theorem int32?_of_fits {n : Int} (h : FitsInt32 n) : int32? n = some n := if_pos h

theorem counter?_natCast {n : Nat} (h : n ≤ counterLimit) : counter? n = some n := by
  unfold counter?
  rw [if_pos ⟨Int.natCast_nonneg n, Int.ofNat_le.mpr h⟩, Int.toNat_natCast]

/-- Both coordinates fit into 32 bits with a sign. -/
def Cell.Fits (c : Cell) : Prop := FitsInt32 c.x ∧ FitsInt32 c.z

/-- The cell a given offset away, unless a coordinate overflows. -/
def Cell.shift? (c : Cell) (offset : Int × Int) : Option Cell := do
  let x ← int32? (c.x + offset.1)
  let z ← int32? (c.z + offset.2)
  return ⟨x, z⟩

theorem Cell.shift?_of_fits {c : Cell} {offset : Int × Int} (h : (c.shift offset).Fits) :
    c.shift? offset = some (c.shift offset) := by
  have hx : int32? (c.x + offset.1) = some (c.x + offset.1) := int32?_of_fits h.1
  have hz : int32? (c.z + offset.2) = some (c.z + offset.2) := int32?_of_fits h.2
  simp only [shift?, hx, hz]
  rfl

/-- The cell ahead of a robot, or behind it, unless a coordinate overflows. -/
def Robot.ahead? (r : Robot) : Heading → Option Cell
  | .forward => r.cell.shift? r.facing.offset
  | .backward => r.cell.shift? r.facing.opposite.offset

theorem Robot.ahead?_of_fits {r : Robot} {heading : Heading} (h : (r.ahead heading).Fits) :
    r.ahead? heading = some (r.ahead heading) := by
  cases heading with
  | forward | backward => exact Cell.shift?_of_fits h

/-- One cell of a move, unless a coordinate overflows. -/
def World.stride? (w : World) (heading : Heading) : Option (Except Fault (Event × World)) :=
  let source := w.robot.cell
  if w.grid.Contains source then do
    let target ← w.robot.ahead? heading
    if w.grid.Passable target then
      return .ok (.moved source target (w.grid.onFire target),
        { w with robot := { w.robot with cell := target } })
    else
      return .ok (.bumped source target, w)
  else
    some (.error (.offGrid source))

/-- One step of an action, unless a coordinate overflows. -/
def Action.perform? (w : World) : Action → Option (Except Fault (Event × World))
  | .move heading _ => w.stride? heading
  | a => some (a.perform w)

/-- What is left of an action after its first step, unless its number of cells overflows. -/
def Action.rest? : Action → Option (List Command)
  | .move heading cells =>
    if 1 < cells then do
      let n ← counter? (cells - 1)
      return [.act (.move heading n)]
    else
      some []
  | _ => some []

/-- Applies at most one action, unless a number overflows. -/
def Machine.step? (m : Machine) : Option (Step × Machine) :=
  match m.executor.outcome? with
  | some o => some (.finished o, m)
  | none =>
    if m.context.cancelled then some (m.finish .cancelled)
    else
      match next? m.world m.executor.pending with
      | none => some (m.finish .completed)
      | some (action, cs) =>
        if m.context.budget ≤ m.context.count then
          some (m.finish (.failed (.budgetOverrun m.context.budget)))
        else do
          match ← action.perform? m.world with
          | .error fault => return m.finish (.failed fault)
          | .ok (event, world) =>
            let rest ← action.rest?
            let count ← counter? (m.context.count + 1)
            return (.applied event,
              { world
                executor := { pending := rest ++ cs }
                context := { m.context with count } })

/-! ### Actions -/

section Action

variable {w : World}

/-- The offset of a facing is one cell at most. -/
theorem Facing.offset_bounds (f : Facing) :
    (-1 ≤ f.offset.1 ∧ f.offset.1 ≤ 1) ∧ -1 ≤ f.offset.2 ∧ f.offset.2 ≤ 1 := by
  cases f <;> decide

/-- Whatever lies beside a cell of the board can be named. -/
theorem Cell.fits_shift_of_contains {g : Grid} {c : Cell} (hsize : FitsInt32 g.size)
    (h : g.Contains c) (f : Facing) : (c.shift f.offset).Fits := by
  obtain ⟨⟨hx, hxsize⟩, hz, hzsize⟩ := h
  obtain ⟨⟨hwest, heast⟩, hnorth, hsouth⟩ := f.offset_bounds
  unfold FitsInt32 at hsize
  unfold Cell.Fits Cell.shift FitsInt32
  dsimp only
  omega

theorem Robot.fits_ahead (hsize : FitsInt32 w.grid.size) (h : w.grid.Contains w.robot.cell)
    (heading : Heading) : (w.robot.ahead heading).Fits := by
  cases heading with
  | forward | backward => exact Cell.fits_shift_of_contains hsize h _

theorem World.stride?_eq (hsize : FitsInt32 w.grid.size) (heading : Heading) :
    w.stride? heading = some (w.stride heading) := by
  unfold stride? stride
  dsimp only
  split
  · next inside =>
    rw [Robot.ahead?_of_fits (Robot.fits_ahead hsize inside heading), Option.bind_eq_bind,
      Option.bind_some]
    split <;> rfl
  · rfl

/-- A step of an action does not overflow, wherever the robot stands. -/
theorem Action.perform?_eq (hsize : FitsInt32 w.grid.size) (a : Action) :
    a.perform? w = some (a.perform w) := by
  cases a with
  | move heading cells => exact World.stride?_eq hsize heading
  | _ => rfl

-- off the board the cell ahead may have no name, and there it is not looked for
example : (Robot.mk ⟨2147483647, 0⟩ .east).ahead? .forward = none := by decide

/-- The number in a command, if it has one, is one of a counter. -/
def Command.Fits : Command → Prop
  | .act (.move _ cells) => cells ≤ counterLimit
  | .loop count _ => count ≤ counterLimit
  | _ => True

/-- Counting the cells of a move down does not overflow. -/
theorem Action.rest?_eq {a : Action} (h : (Command.act a).Fits) : a.rest? = some a.rest := by
  cases a with
  | move heading cells =>
    match cells with
    | 0 => rfl
    | 1 => rfl
    | n + 2 =>
      have hmore : 1 < n + 2 := Nat.le_add_left 2 n
      have hless : n + 1 ≤ counterLimit := Nat.le_of_succ_le h
      have hcounter : counter? (((n + 2 : Nat) : Int) - 1) = some (n + 1) := by
        rw [← counter?_natCast hless]
        congr 1
        omega
      rw [rest?, if_pos hmore, hcounter]
      rfl
  | _ => rfl

theorem Action.fits_rest {a : Action} (h : (Command.act a).Fits) :
    ThroughoutAll Command.Fits a.rest := by
  unfold rest
  split
  · exact ⟨Nat.le_of_succ_le h, trivial⟩
  · trivial

end Action

/-! ### Machines -/

namespace Machine

variable {m : Machine}

/-- The numbers of the machine have 32 bits. The robot may stand off the board, and the count may be
beyond the budget. -/
structure Fits (m : Machine) : Prop where
  size : FitsInt32 m.world.grid.size
  robot : m.world.robot.cell.Fits
  commands : ThroughoutAll Command.Fits m.executor.pending
  budget : m.context.budget ≤ counterLimit
  count : m.context.count ≤ counterLimit

/-- No step overflows. -/
theorem Fits.step?_eq (h : m.Fits) : m.step? = some m.step := by
  rcases hstep : m.step with ⟨answer, m'⟩
  unfold step?
  cases advance_of_step hstep with
  | ended reached => simp only [reached]
  | cancelled live told =>
    simp only [live, told]
    rfl
  | completed live untold idle =>
    simp only [live, untold, idle]
    rfl
  | spent live untold due used =>
    simp only [live, untold, due, used]
    rfl
  | faulted live untold due left fault =>
    simp only [live, untold, due, Nat.not_le.mpr left, Action.perform?_eq h.size, fault]
    rfl
  | performed live untold due left effect =>
    have hperform := Action.perform_eq_ok_iff.mpr effect
    have hrest := Action.rest?_eq (throughoutAll_of_next? h.commands due).1
    -- the budget is a number that the counter reaches
    have hcount := counter?_natCast (Nat.le_trans left h.budget)
    rw [Int.natCast_succ] at hcount
    simp only [live, untold, due, Nat.not_le.mpr left, Action.perform?_eq h.size, hperform, hrest,
      hcount]
    rfl

/-- After a step the numbers fit as they did before. -/
theorem Fits.step (h : m.Fits) : m.step.2.Fits := by
  rcases hstep : m.step with ⟨answer, m'⟩
  cases advance_of_step hstep with
  | ended reached => exact h
  | cancelled | completed | spent | faulted =>
    exact ⟨h.size, h.robot, trivial, h.budget, h.count⟩
  | @performed a rest e w live untold due left effect =>
    obtain ⟨hfirst, hrest⟩ := throughoutAll_of_next? h.commands due
    refine ⟨?_, ?_, throughoutAll_append.mpr ⟨Action.fits_rest hfirst, hrest⟩, h.budget,
      Nat.le_trans left h.budget⟩
    · rw [effect.board.1]
      exact h.size
    · cases effect with
      | moved inside free => exact Robot.fits_ahead h.size inside _
      | _ => exact h.robot

theorem Fits.handled (h : m.Fits) (ts : List Touch) : (m.handled ts).Fits :=
  handled_induction h (fun _ => Fits.step)
    (fun _ h => ⟨h.size, h.robot, h.commands, h.budget, h.count⟩) ts

/-- A count within the budget stays within it. -/
theorem count_handled_le (h : m.context.count ≤ m.context.budget) (ts : List Touch) :
    (m.handled ts).context.count ≤ m.context.budget := by
  -- by the way the budget stays as it is
  have hkept : (m.handled ts).context.budget = m.context.budget ∧
      (m.handled ts).context.count ≤ m.context.budget := by
    refine handled_induction
      (motive := fun m' => m'.context.budget = m.context.budget ∧
        m'.context.count ≤ m.context.budget) ⟨rfl, h⟩ (fun m' hm' => ?_) (fun _ hm' => hm') ts
    rcases hstep : m'.step with ⟨answer, m''⟩
    cases advance_of_step hstep with
    | ended | cancelled | completed | spent | faulted => exact hm'
    | performed live untold due left effect => exact ⟨hm'.1, hm'.1 ▸ left⟩
  exact hkept.2

end Machine

/-- No step overflows of a machine whose numbers have 32 bits, and they still have after it. The
robot may stand anywhere, and the count may be anything; but if it is within the budget at first, it
always is. -/
theorem handled_never_overflows {m : Machine} (h : m.Fits) (ts : List Machine.Touch) :
    (m.handled ts).step? = some (m.handled ts).step ∧ (m.handled ts).Fits ∧
      (m.context.count ≤ m.context.budget →
        (m.handled ts).context.count ≤ m.context.budget) :=
  ⟨(h.handled ts).step?_eq, h.handled ts, fun hwithin => Machine.count_handled_le hwithin ts⟩

/-- A move of as many cells as there can be, away from the last cell of the largest board, with one
step left in the largest budget. -/
theorem handled_never_overflows_at_limits :
    let start : Robot := ⟨⟨2147483646, 0⟩, .east⟩
    let m : Machine :=
      { world :=
          { grid := { size := 2147483647 }, robot := start, crystal := ⟨⟨0, 0⟩, false⟩,
            spawn := start }
        executor := .ofCommands [.loop 4294967295 [], .act (.move .forward 4294967295)]
        context := { budget := 4294967295, count := 4294967294 } }
    let m' := m.handled [.step]
    (m.Fits ∧ m.context.count ≤ m.context.budget) ∧
      (m.step.1 = .applied (.bumped ⟨2147483646, 0⟩ ⟨2147483647, 0⟩) ∧
        m'.executor.pending = [.act (.move .forward 4294967294)] ∧
        m'.context.count = 4294967295) ∧
      m'.step? = some m'.step ∧ m'.Fits ∧ m'.context.count ≤ m.context.budget := by
  intro start m m'
  have hfits : m.Fits :=
    ⟨by decide, ⟨by decide, by decide⟩, ⟨⟨Nat.le_refl _, trivial⟩, Nat.le_refl _, trivial⟩,
      Nat.le_refl _, by decide⟩
  have hwithin : m.context.count ≤ m.context.budget := by decide
  obtain ⟨hstep, hlater, hcount⟩ := handled_never_overflows hfits [.step]
  exact ⟨⟨hfits, hwithin⟩, by decide +kernel, hstep, hlater, hcount hwithin⟩

end RobotPuzzle
