import Mathlib.Data.List.Basic
import RobotPuzzle.Proofs.Metering
import RobotPuzzle.Proofs.Watch

/-!
# Compiling preserves meaning

A syntax tree has a meaning of its own, in which every statement counts. Compiling leaves out the
loops and branches that do not move the meter. As long as the meter goes on counting, these are
the ones in which there is nothing to do, and leaving them out cannot be noticed. A full meter
does not move either: what begins behind it is left out whatever it does. Only a budget at the
limit of the counter accepts programs that go so far.

## Main definitions

* `Statement.course`, `courseOfBlock` — the meaning of a syntax tree
* `Statement.work`, `workOfBlock` — the steps of its longest way
* `Statement.HasRoom`, `BlockHasRoom` — the meter is not full where something to do begins
* `Faithful` — commands that show the meaning of a syntax tree

## Main results

* `preserved_of_compileBlock` — where the meter has room, work and meaning are preserved
* `blockHasRoom_of_compileBlock` — a budget below the limit leaves room
* `faithful_iff_below_limit` — the budgets under which all programs keep their meaning
-/

namespace RobotPuzzle

open Course

mutual

/-- The number of steps of the longest way through a statement. -/
def Statement.work : Statement → Nat
  | .call name argument _ _ => ((action? name argument).map Action.work).getD 0
  | .loop count body _ => countOf count * workOfBlock body
  | .branch _ thenBlock elseBlock => max (workOfBlock thenBlock) (workOfElse elseBlock)

/-- The same for the block after `else`, if there is one. -/
def workOfElse : Option (List Statement) → Nat
  | none => 0
  | some block => workOfBlock block

/-- The number of steps of the longest way through a block. -/
def workOfBlock : List Statement → Nat
  | [] => 0
  | s :: ss => s.work + workOfBlock ss

end

mutual

/-- The course of a statement as it is written. A call performs the action that its name and
number denote, a loop goes through its whole body as often as its number denotes, and a branch
reads its sensor in the world in which it is reached. -/
def Statement.course : Statement → World → Course
  | .call name argument _ _ =>
    match action? name argument with
    | some a => a.course
    | none => fun _ => .done
  | .loop count body _ => times (courseOfBlock body) (countOf count)
  | .branch condition thenBlock elseBlock => fun w =>
    if w.onFire != condition.negated then courseOfBlock thenBlock w
    else courseOfElse elseBlock w

/-- The course of the block after `else`, if there is one. -/
def courseOfElse : Option (List Statement) → World → Course
  | none => fun _ => .done
  | some block => courseOfBlock block

/-- The course of statements carried out from left to right. -/
def courseOfBlock : List Statement → World → Course
  | [] => fun _ => .done
  | s :: ss => fun w => (s.course w).andThen w (courseOfBlock ss)

end

mutual

/-- A meter that has counted `u` steps before the statement is not full where a loop or a branch
begins in which there is something to do. Both blocks of a branch are counted from its
beginning. -/
def Statement.HasRoom (u : Nat) : Statement → Prop
  | .call .. => True
  | .loop _ body _ => (u < counterLimit ∨ workOfBlock body = 0) ∧ BlockHasRoom u body
  | .branch _ thenBlock elseBlock =>
    (u < counterLimit ∨ max (workOfBlock thenBlock) (workOfElse elseBlock) = 0) ∧
      BlockHasRoom u thenBlock ∧ ElseHasRoom u elseBlock

/-- The same for the block after `else`, if there is one. -/
def ElseHasRoom (u : Nat) : Option (List Statement) → Prop
  | none => True
  | some block => BlockHasRoom u block

/-- The same for the statements of a block. -/
def BlockHasRoom (u : Nat) : List Statement → Prop
  | [] => True
  | s :: ss => s.HasRoom u ∧ BlockHasRoom (u + s.work) ss

end

/-- The commands do what the syntax tree says: a machine that carries them out shows the course
of the tree, in every world, whatever the budget and the count, and wherever the run is
cancelled. -/
def Faithful (ss : List Statement) (cs : List Command) : Prop :=
  ∀ (w : World) (c : Context) (stop? : Option Nat),
    ({ world := w, executor := .ofCommands cs, context := c } : Machine).watch stop? =
      (courseOfBlock ss w).under w c stop?

/-! ### Where the meter has room -/

/-- What a block comes to in which the meter does not move, although it is not full or there is
nothing to do. -/
theorem eq_zero_of_unmoved {u used work : Nat} (hroom : u < counterLimit ∨ work = 0)
    (hused : used = saturate (saturate u + work)) (hstill : used - saturate u = 0) : work = 0 := by
  unfold saturate at *
  omega

section Preserved

variable {u n work work' : Nat} {m m' thenMeter elseMeter : Meter} {cs ds : List Command}
  {f g : World → Course}

/-- A loop keeps its work and its meaning, whether or not it is left out. -/
theorem loop_preserved (hused : m.used = saturate u) (hbody : Metered m cs m')
    (hwork : workOf cs = work) (hcourse : courseOf cs = f)
    (hroom : u < counterLimit ∨ work = 0) :
    let kept : List Command := if m'.used - m.used = 0 then [] else [.loop n cs]
    workOf kept = n * work ∧ courseOf kept = times f n := by
  intro kept
  by_cases hstill : m'.used - m.used = 0
  · have hround : m'.used = saturate (saturate u + work) := by
      rw [hbody.used, hused, hwork]
    have hzero : work = 0 := eq_zero_of_unmoved hroom hround (hused ▸ hstill)
    -- compiled commands that do nothing are none
    have hnil : cs = [] := eq_nil_of_workOf_eq_zero hbody.canonical (hwork.trans hzero)
    have hkept : kept = [] := if_pos hstill
    rw [hkept, hzero, ← hcourse, hnil]
    exact ⟨rfl, (times_done n).symm⟩
  · have hkept : kept = [.loop n cs] := if_neg hstill
    rw [hkept, workOf_singleton, courseOf_singleton, Command.work, Command.course, hwork, hcourse]
    exact ⟨rfl, rfl⟩

/-- A branch keeps its work and its meaning, whether or not it is left out. -/
theorem branch_preserved {negated : Bool} (hused : m.used = saturate u)
    (hthen : Metered m cs thenMeter) (helse : Metered m ds elseMeter)
    (hthenWork : workOf cs = work) (helseWork : workOf ds = work')
    (hthenCourse : courseOf cs = f) (helseCourse : courseOf ds = g)
    (hroom : u < counterLimit ∨ max work work' = 0) :
    let kept : List Command :=
      if max thenMeter.used elseMeter.used - m.used = 0 then [] else [.branch negated cs ds]
    workOf kept = max work work' ∧
      courseOf kept = fun w => if w.onFire != negated then f w else g w := by
  intro kept
  by_cases hstill : max thenMeter.used elseMeter.used - m.used = 0
  · have hlonger : max thenMeter.used elseMeter.used = saturate (saturate u + max work work') := by
      rw [hthen.used, helse.used, hused, hthenWork, helseWork, saturate_max,
        Nat.add_max_add_left]
    have hzero : max work work' = 0 := eq_zero_of_unmoved hroom hlonger (hused ▸ hstill)
    have hboth : work = 0 ∧ work' = 0 := by omega
    have hcs : cs = [] := eq_nil_of_workOf_eq_zero hthen.canonical (hthenWork.trans hboth.1)
    have hds : ds = [] := eq_nil_of_workOf_eq_zero helse.canonical (helseWork.trans hboth.2)
    have hkept : kept = [] := if_pos hstill
    rw [hkept, hzero, ← hthenCourse, ← helseCourse, hcs, hds]
    exact ⟨rfl, funext fun w => (ite_self _).symm⟩
  · have hkept : kept = [.branch negated cs ds] := if_neg hstill
    rw [hkept, workOf_singleton, courseOf_singleton, Command.work, Command.course, hthenWork,
      helseWork, hthenCourse, helseCourse]
    exact ⟨rfl, rfl⟩

end Preserved

/-- The meter is at the limit of the counter or shows what it has counted. -/
theorem Metered.used_eq {u work : Nat} {m m' : Meter} {cs : List Command} (h : Metered m cs m')
    (hused : m.used = saturate u) (hwork : workOf cs = work) : m'.used = saturate (u + work) := by
  rw [h.used, hused, hwork, Nat.add_comm, saturate_add_saturate, Nat.add_comm]

mutual

theorem preserved_of_compile (s : Statement) {u : Nat} {m m' : Meter} {cs : List Command}
    (hused : m.used = saturate u) (hroom : s.HasRoom u) (h : s.compile m = .ok (cs, m')) :
    workOf cs = s.work ∧ courseOf cs = s.course := by
  have hm : m.used ≤ counterLimit := hused ▸ saturate_le u
  cases s with
  | call name argument text l =>
    obtain ⟨a, haction, -, -, rfl⟩ := compile_call_eq_ok_iff.mp h
    rw [workOf_singleton, courseOf_singleton, Statement.work, Statement.course, haction]
    exact ⟨rfl, rfl⟩
  | loop count body l =>
    obtain ⟨commands, inner, hbody, -, -, rfl⟩ := compile_loop_eq_ok_iff.mp h
    obtain ⟨hwork, hcourse⟩ := preserved_of_compileBlock body hused hroom.2 hbody
    exact loop_preserved hused (metered_of_compileBlock body hm hbody) hwork hcourse hroom.1
  | branch condition thenBlock elseBlock =>
    obtain ⟨-, thenDo, thenMeter, elseDo, elseMeter, hthen, helse, -, rfl⟩ :=
      compile_branch_eq_ok_iff.mp h
    obtain ⟨hlonger, hthenRoom, helseRoom⟩ := hroom
    -- both blocks are compiled with the meter as it stands before the branch
    obtain ⟨hthenWork, hthenCourse⟩ := preserved_of_compileBlock thenBlock hused hthenRoom hthen
    obtain ⟨helseWork, helseCourse⟩ := preserved_of_compileElse elseBlock hused helseRoom helse
    exact branch_preserved hused (metered_of_compileBlock thenBlock hm hthen)
      (metered_of_compileElse elseBlock hm helse) hthenWork helseWork hthenCourse helseCourse
      hlonger

theorem preserved_of_compileElse (block? : Option (List Statement)) {u : Nat} {m m' : Meter}
    {cs : List Command} (hused : m.used = saturate u) (hroom : ElseHasRoom u block?)
    (h : compileElse block? m = .ok (cs, m')) :
    workOf cs = workOfElse block? ∧ courseOf cs = courseOfElse block? := by
  cases block? with
  | none =>
    cases h
    exact ⟨rfl, rfl⟩
  | some block => exact preserved_of_compileBlock block hused hroom h

/-- Where the meter has room, the commands of a block have its work and its meaning. -/
theorem preserved_of_compileBlock (ss : List Statement) {u : Nat} {m m' : Meter}
    {cs : List Command} (hused : m.used = saturate u) (hroom : BlockHasRoom u ss)
    (h : compileBlock ss m = .ok (cs, m')) :
    workOf cs = workOfBlock ss ∧ courseOf cs = courseOfBlock ss := by
  cases ss with
  | nil =>
    cases h
    exact ⟨rfl, rfl⟩
  | cons s ss =>
    obtain ⟨first, next, rest, hfirst, hrest, rfl⟩ := compileBlock_cons_eq_ok_iff.mp h
    obtain ⟨hwork, hcourse⟩ := preserved_of_compile s hused hroom.1 hfirst
    have hmetered := metered_of_compile s (hused ▸ saturate_le u) hfirst
    obtain ⟨hrestWork, hrestCourse⟩ :=
      preserved_of_compileBlock ss (hmetered.used_eq hused hwork) hroom.2 hrest
    refine ⟨?_, funext fun w => ?_⟩
    · rw [workOf_append, workOfBlock, hwork, hrestWork]
    · rw [courseOf_append, courseOfBlock, hcourse, hrestCourse]

end

/-! ### Budgets below the limit -/

mutual

theorem hasRoom_of_compile (s : Statement) {m m' : Meter} {cs : List Command}
    (hwithin : m.used ≤ m.budget) (hbudget : m.budget < counterLimit)
    (h : s.compile m = .ok (cs, m')) : s.HasRoom m.used := by
  have hroom : m.used < counterLimit := Nat.lt_of_le_of_lt hwithin hbudget
  cases s with
  | call name argument text l => trivial
  | loop count body l =>
    obtain ⟨commands, inner, hbody, -, -, -⟩ := compile_loop_eq_ok_iff.mp h
    exact ⟨.inl hroom, blockHasRoom_of_compileBlock body hwithin hbudget hbody⟩
  | branch condition thenBlock elseBlock =>
    obtain ⟨-, thenDo, thenMeter, elseDo, elseMeter, hthen, helse, -, -⟩ :=
      compile_branch_eq_ok_iff.mp h
    exact ⟨.inl hroom, blockHasRoom_of_compileBlock thenBlock hwithin hbudget hthen,
      elseHasRoom_of_compileElse elseBlock hwithin hbudget helse⟩

theorem elseHasRoom_of_compileElse (block? : Option (List Statement)) {m m' : Meter}
    {cs : List Command} (hwithin : m.used ≤ m.budget) (hbudget : m.budget < counterLimit)
    (h : compileElse block? m = .ok (cs, m')) : ElseHasRoom m.used block? := by
  cases block? with
  | none => trivial
  | some block => exact blockHasRoom_of_compileBlock block hwithin hbudget h

/-- A meter whose budget is below the limit is never full. -/
theorem blockHasRoom_of_compileBlock (ss : List Statement) {m m' : Meter} {cs : List Command}
    (hwithin : m.used ≤ m.budget) (hbudget : m.budget < counterLimit)
    (h : compileBlock ss m = .ok (cs, m')) : BlockHasRoom m.used ss := by
  cases ss with
  | nil => trivial
  | cons s ss =>
    obtain ⟨first, next, rest, hfirst, hrest, -⟩ := compileBlock_cons_eq_ok_iff.mp h
    have hm : m.used ≤ counterLimit := Nat.le_of_lt (Nat.lt_of_le_of_lt hwithin hbudget)
    have hroom := hasRoom_of_compile s hwithin hbudget hfirst
    have hused : m.used = saturate m.used := (saturate_eq_self hm).symm
    obtain ⟨hwork, -⟩ := preserved_of_compile s hused hroom hfirst
    have hmetered := metered_of_compile s hm hfirst
    -- below its limit the counter shows the exact sum
    have hnext : next.used = m.used + s.work := by
      have hle := hmetered.within hwithin
      rw [hmetered.used_eq hused hwork, hmetered.budget] at *
      unfold saturate at *
      omega
    have hlater := blockHasRoom_of_compileBlock ss (hmetered.within hwithin)
      (hmetered.budget ▸ hbudget) hrest
    exact ⟨hroom, hnext ▸ hlater⟩

end

/-! ### Faithful commands -/

section Faithful

variable {ss : List Statement} {cs : List Command} {budget : Nat}

theorem faithful_of_courseOf_eq (h : courseOf cs = courseOfBlock ss) : Faithful ss cs := by
  intro w c stop?
  rw [watch_eq_under, h]

theorem faithful_of_blockHasRoom (hcompile : compile ss budget = .ok cs)
    (hroom : BlockHasRoom 0 ss) : Faithful ss cs := by
  obtain ⟨m, hblock⟩ := compile_eq_ok_iff.mp hcompile
  exact faithful_of_courseOf_eq (preserved_of_compileBlock ss rfl hroom hblock).2

theorem blockHasRoom_of_compile (hbudget : budget < counterLimit)
    (hcompile : compile ss budget = .ok cs) : BlockHasRoom 0 ss := by
  obtain ⟨m, hblock⟩ := compile_eq_ok_iff.mp hcompile
  exact blockHasRoom_of_compileBlock ss (Nat.zero_le _) hbudget hblock

end Faithful

/-- A program whose first branch fills the counter, so that the loop after it begins behind a full
meter. -/
def overfullSource : String :=
  "if onFire { repeat 50 { repeat 50 { repeat 50 { repeat 50 { repeat 50 { forward 50 } } } } } }
repeat 1 { collect }"

/-- The loops of the first branch. -/
def overfullLoops : Nat → List Command
  | 0 => [.act (.move .forward 50)]
  | n + 1 => [.loop 50 (overfullLoops n)]

/-- Under the largest budget the second loop of the program is left out, although there is a step
in it: where nothing burns, the commands end at once, and the program looks for a crystal. -/
theorem overfull_program_loses_step :
    let w := Level.phaseOne.world
    let c : Context := { budget := counterLimit }
    let cs : List Command := [.branch false (overfullLoops 5) []]
    ∃ ss, parseStatements overfullSource = .ok ss ∧ compile ss counterLimit = .ok cs ∧
      ({ world := w, executor := .ofCommands cs, context := c } : Machine).watch none =
        .ended w 0 .completed ∧
      (courseOfBlock ss w).under w c none =
        (Log.ended w 1 .completed).after ⟨.collectMissed ⟨0, 5⟩, w, 1⟩ := by
  intro w c cs
  have hparse : parse overfullSource counterLimit = .ok cs := by decide +kernel
  obtain ⟨ss, hss, hcompile⟩ := parse_eq_ok_iff.mp hparse
  have hmeaning : (parseStatements overfullSource).map (courseOfBlock · w) =
      .ok (.step (.collectMissed ⟨0, 5⟩) w .done) := by decide +kernel
  rw [hss] at hmeaning
  have hcourse : courseOfBlock ss w = .step (.collectMissed ⟨0, 5⟩) w .done :=
    Except.ok.inj hmeaning
  refine ⟨ss, hss, hcompile, ?_, ?_⟩
  · rw [watch_eq_under]
    rfl
  · rw [hcourse]
    rfl

theorem exists_unfaithful :
    ∃ ss cs, parseStatements overfullSource = .ok ss ∧ compile ss counterLimit = .ok cs ∧
      ¬ Faithful ss cs := by
  obtain ⟨ss, hss, hcompile, hcommands, hmeaning⟩ := overfull_program_loses_step
  refine ⟨ss, _, hss, hcompile, fun hfaithful => ?_⟩
  have hsame := hfaithful Level.phaseOne.world { budget := counterLimit } none
  rw [hcommands, hmeaning] at hsame
  exact absurd (congrArg Log.count hsame) (by decide)

/-- Compiling preserves the meaning of every program under just the budgets below the limit of
the counter, and under any budget that of the trees that do not fill the counter before a loop
or a branch with something to do. -/
theorem faithful_iff_below_limit {budget : Nat} (hbudget : budget ≤ counterLimit) :
    ((∀ source ss cs, parseStatements source = .ok ss → compile ss budget = .ok cs →
        Faithful ss cs) ↔ budget < counterLimit) ∧
      ∀ ss cs, compile ss budget = .ok cs → budget < counterLimit ∨ BlockHasRoom 0 ss →
        Faithful ss cs := by
  have hkept : ∀ ss cs, compile ss budget = .ok cs → budget < counterLimit ∨ BlockHasRoom 0 ss →
      Faithful ss cs := by
    intro ss cs hcompile hroom
    rcases hroom with hlimit | hroom
    · exact faithful_of_blockHasRoom hcompile (blockHasRoom_of_compile hlimit hcompile)
    · exact faithful_of_blockHasRoom hcompile hroom
  refine ⟨⟨fun hall => ?_, fun hlimit source ss cs _ hcompile => ?_⟩, hkept⟩
  · -- the limit itself is too much for the overfull program
    refine Nat.lt_of_le_of_ne hbudget ?_
    rintro rfl
    obtain ⟨ss, cs, hss, hcompile, hunfaithful⟩ := exists_unfaithful
    exact hunfaithful (hall overfullSource ss cs hss hcompile)
  · exact hkept ss cs hcompile (.inl hlimit)

/-- Blocks without steps are left out at every depth, and the program means what it meant. -/
theorem faithful_without_empty_blocks :
    10 ≤ counterLimit ∧
      ∃ ss, parseStatements "repeat 3 { if onFire { repeat 2 { } } else { } } back 2" = .ok ss ∧
        compile ss 10 = .ok [.act (.move .backward 2)] ∧ 10 < counterLimit ∧
        Faithful ss [.act (.move .backward 2)] := by
  have hbudget : 10 ≤ counterLimit := by decide
  have hlimit : 10 < counterLimit := by decide
  have hparse : parse "repeat 3 { if onFire { repeat 2 { } } else { } } back 2" 10 =
      .ok [.act (.move .backward 2)] := by decide +kernel
  obtain ⟨ss, hss, hcompile⟩ := parse_eq_ok_iff.mp hparse
  exact ⟨hbudget, ss, hss, hcompile, hlimit,
    (faithful_iff_below_limit hbudget).2 ss _ hcompile (.inl hlimit)⟩

/-- Under the largest budget a program can lose steps. -/
theorem not_faithful_at_limit :
    ¬ ∀ source budget ss cs, budget ≤ counterLimit → parseStatements source = .ok ss →
      compile ss budget = .ok cs → Faithful ss cs := by
  intro hall
  obtain ⟨ss, cs, hss, hcompile, hunfaithful⟩ := exists_unfaithful
  exact hunfaithful (hall overfullSource counterLimit ss cs (Nat.le_refl _) hss hcompile)

end RobotPuzzle
