import RobotPuzzle.Program.Error
import RobotPuzzle.Program.Reader
import RobotPuzzle.Program.Vocabulary

/-!
# From statements to commands

Compiling checks the names and numbers of a program from left to right and charges every step
that it may take against a budget. A loop is charged for all its rounds, a branch for the longer
of its blocks. Statements that cost nothing are left out.

## Main definitions

* `Meter` — the steps charged so far and the budget
* `positive` — a number that is at least 1
* `compileBlock`, `Statement.compile` — the commands of statements
* `parse` — the commands of a program's text
-/

namespace RobotPuzzle

/-- The steps charged so far, counted up to the limit of a 32-bit counter, and the steps
allowed. -/
structure Meter where
  used : Nat
  budget : Nat
  deriving DecidableEq, Repr

/-- Charges some steps. -/
def Meter.charge (m : Meter) (steps : Nat) : Except ProgramError Meter :=
  let used := saturate (m.used + steps)
  if m.budget < used then .error (.overBudget used m.budget) else .ok { m with used }

/-- The number of a statement, if it is at least 1. Beyond the largest counter the number does
not matter, and beyond 64 bits it is refused at once. Whether it is too large is decided only
after it has been charged, so that a number that is both too large and too dear is too dear. -/
def positive (digits fragment : String) (line : Nat) : Except ProgramError Nat :=
  let n := denoted digits
  if ¬ FitsWord n then .error (.argument fragment line .tooLarge)
  else if n < 1 then .error (.argument fragment line .tooSmall)
  else .ok (saturate n.toNat)

/-- Refuses a number that is too large. -/
def checkAtMost (n : Nat) (fragment : String) (line : Nat) : Except ProgramError Unit :=
  if maxArgument < n then .error (.argument fragment line .tooLarge) else .ok ()

/-- The action of a call. -/
def compileCall (name : String) (argument : Option String) (text : String) (l : Location)
    (m : Meter) : Except ProgramError (Action × Meter) :=
  match Verb.ofName? name, argument with
  | none, _ => .error (.unrecognized text l)
  | some (.move _), none => .error (.argument text l.line .missing)
  | some (.move heading), some digits => do
    let n ← positive digits text l.line
    -- charged first, so that a move that is also too dear is reported as too dear
    let m ← m.charge n
    checkAtMost n text l.line
    pure (.move heading n, m)
  | some (.plain _), some _ => .error (.argument text l.line .unwanted)
  | some (.plain action), none => do
    let m ← m.charge 1
    pure (action, m)

mutual

/-- The commands of one statement, which are one or none, and the meter after it. -/
def Statement.compile : Statement → Meter → Except ProgramError (List Command × Meter)
  | .call name argument text l, m => do
    let (action, m) ← compileCall name argument text l m
    pure ([.act action], m)
  | .loop count body l, m => do
    let fragment := "repeat " ++ count
    let n ← positive count fragment l.line
    -- one round on a copy of the meter tells what all rounds will add to the meter itself
    let (commands, inner) ← compileBlock body m
    let round := inner.used - m.used
    let m ← m.charge (saturate (round * n))
    checkAtMost n fragment l.line
    pure (if round = 0 then [] else [.loop n commands], m)
  | .branch condition thenBlock elseBlock, m =>
    if isFireSensor condition.sensor then do
      -- both blocks begin with the meter as it is, and only the dearer one counts
      let (thenDo, thenMeter) ← compileBlock thenBlock m
      let (elseDo, elseMeter) ← compileElse elseBlock m
      let cost := max thenMeter.used elseMeter.used - m.used
      let m ← m.charge cost
      pure (if cost = 0 then [] else [.branch condition.negated thenDo elseDo], m)
    else
      .error (.unrecognized condition.sensor condition.location)

/-- The commands of the block after `else`, if there is one. -/
def compileElse : Option (List Statement) → Meter → Except ProgramError (List Command × Meter)
  | none, m => .ok ([], m)
  | some block, m => compileBlock block m

/-- The commands of statements carried out one after the other. -/
def compileBlock : List Statement → Meter → Except ProgramError (List Command × Meter)
  | [], m => .ok ([], m)
  | s :: ss, m => do
    let (first, m) ← s.compile m
    let (rest, m) ← compileBlock ss m
    pure (first ++ rest, m)

end

/-- The commands of a program within a budget. -/
def compile (statements : List Statement) (budget : Nat) : Except ProgramError (List Command) := do
  let (commands, _) ← compileBlock statements { used := 0, budget }
  pure commands

/-- The syntax tree of a program's text. -/
def parseStatements (source : String) : Except ProgramError (List Statement) :=
  match readStatements source.toList with
  | .ok statements => .ok statements
  | .error offset => .error (.ofOffset source.toList offset)

/-- The commands of a program's text within a budget. -/
def parse (source : String) (budget : Nat) : Except ProgramError (List Command) := do
  compile (← parseStatements source) budget

end RobotPuzzle
