import RobotPuzzle.Proofs.Cutting
import RobotPuzzle.Proofs.RoundTrip

/-!
# What runs spend

Commands declare a cost before anything is carried out. A run that completes has taken no more steps
than that, and without branches just as many, as long as every move has a cell to go. A move of no
cells declares no cost, but the robot tries one step all the same. Programs have no such moves, but
commands that are put together otherwise may have them, and then a run may take more steps than
declared.

## Main definitions

* `Straight` — commands without branches
* `Lively` — commands in which every move has a cell to go
* `idleOf` — the number of steps that are taken in moves of no cells

## Main results

* `boundOf_of_straight` — without branches the longest way is as long as declared and idle
* `length_of_straight` — without branches there is only one way, and a run takes all of it
* `completed_runs_spend_cost` — the steps of completed runs, and when they are the declared cost
-/

namespace RobotPuzzle

open Course

/-! ### Kinds of commands -/

/-- The command is a branch. -/
def Command.isBranch : Command → Bool
  | .branch .. => true
  | _ => false

/-- The command is a move of no cells. -/
def Command.isIdle : Command → Bool
  | .act (.move _ 0) => true
  | _ => false

/-- There is no branch among the commands, at any depth. -/
def Straight (cs : List Command) : Prop := ThroughoutAll (fun c => c.isBranch = false) cs

/-- Every move among the commands has a cell to go, at any depth. -/
def Lively (cs : List Command) : Prop := ThroughoutAll (fun c => c.isIdle = false) cs

theorem throughoutAll_append {p : Command → Prop} {cs ds : List Command} :
    ThroughoutAll p (cs ++ ds) ↔ ThroughoutAll p cs ∧ ThroughoutAll p ds := by
  induction cs with
  | nil => simp [ThroughoutAll]
  | cons c cs ih => simp only [List.cons_append, ThroughoutAll, ih, and_assoc]

theorem throughoutAll_rounds {p : Command → Prop} {body : List Command}
    (h : ThroughoutAll p body) (n : Nat) : ThroughoutAll p (rounds n body) := by
  rw [rounds_eq]
  induction n with
  | zero => trivial
  | succ n ih =>
    rw [List.replicate_succ, List.flatten_cons]
    exact throughoutAll_append.mpr ⟨h, ih⟩

/-- What holds of all commands holds of the first action and of the commands after it. -/
theorem throughoutAll_of_next? {p : Command → Prop} {w : World} {cs rest : List Command}
    {a : Action} (h : ThroughoutAll p cs) (hnext : next? w cs = some (a, rest)) :
    p (.act a) ∧ ThroughoutAll p rest := by
  fun_induction next? w cs with
  | case1 => cases hnext
  | case2 b ds =>
    cases hnext
    exact h
  | case3 n body ds ih =>
    exact ih (throughoutAll_append.mpr ⟨throughoutAll_rounds h.1.2 n, h.2⟩) hnext
  | case4 negated thenDo elseDo ds ih =>
    refine ih (throughoutAll_append.mpr ⟨?_, h.2⟩) hnext
    split
    · exact h.1.2.1
    · exact h.1.2.2

/-! ### The longest way and the declared cost -/

mutual

/-- The number of steps that a command takes in moves of no cells if every branch takes the way with
more of them. -/
def Command.idle : Command → Nat
  | .act (.move _ 0) => 1
  | .act _ => 0
  | .loop count body => count * idleOf body
  | .branch _ thenDo elseDo => max (idleOf thenDo) (idleOf elseDo)

/-- The number of steps in moves of no cells among some commands. -/
def idleOf : List Command → Nat
  | [] => 0
  | c :: cs => c.idle + idleOf cs

end

theorem Action.strides_eq (a : Action) :
    a.strides = (Command.act a).work + (Command.act a).idle := by
  cases a with
  | move heading cells =>
    cases cells with
    | zero => rfl
    | succ cells => exact Nat.max_eq_left (Nat.le_add_left 1 cells)
  | _ => rfl

mutual

theorem Command.bound_le (c : Command) : c.bound ≤ c.work + c.idle := by
  cases c with
  | act a => exact Nat.le_of_eq a.strides_eq
  | loop count body =>
    rw [Command.bound, Command.work, Command.idle, ← Nat.mul_add]
    exact Nat.mul_le_mul_left count (boundOf_le body)
  | branch negated thenDo elseDo =>
    have hthen := boundOf_le thenDo
    have helse := boundOf_le elseDo
    -- the way with more work need not be the one with more moves of no cells
    simp only [Command.bound, Command.work, Command.idle]
    omega

/-- The longest way through commands is no longer than they declare and the moves of no cells
among them add. -/
theorem boundOf_le (cs : List Command) : boundOf cs ≤ workOf cs + idleOf cs := by
  cases cs with
  | nil => exact Nat.le_refl 0
  | cons c cs =>
    have hc := Command.bound_le c
    have hcs := boundOf_le cs
    simp only [boundOf, workOf, idleOf]
    omega

end

mutual

theorem Command.bound_of_straight (c : Command) (h : c.Throughout fun d => d.isBranch = false) :
    c.bound = c.work + c.idle := by
  cases c with
  | act a => exact a.strides_eq
  | loop count body =>
    rw [Command.bound, Command.work, Command.idle, boundOf_of_straight body h.2, Nat.mul_add]
  | branch negated thenDo elseDo => cases h.1

/-- Without branches there is no choice between more work and more moves of no cells. -/
theorem boundOf_of_straight (cs : List Command) (h : Straight cs) :
    boundOf cs = workOf cs + idleOf cs := by
  cases cs with
  | nil => rfl
  | cons c cs =>
    rw [boundOf, workOf, idleOf, Command.bound_of_straight c h.1, boundOf_of_straight cs h.2]
    omega

end

mutual

theorem Command.idle_of_lively (c : Command) (h : c.Throughout fun d => d.isIdle = false) :
    c.idle = 0 := by
  cases c with
  | act a =>
    cases a with
    | move heading cells =>
      cases cells with
      | zero => cases h
      | succ cells => rfl
    | _ => rfl
  | loop count body => rw [Command.idle, idleOf_of_lively body h.2, Nat.mul_zero]
  | branch negated thenDo elseDo =>
    rw [Command.idle, idleOf_of_lively thenDo h.2.1, idleOf_of_lively elseDo h.2.2, Nat.max_self]

theorem idleOf_of_lively (cs : List Command) (h : Lively cs) : idleOf cs = 0 := by
  cases cs with
  | nil => rfl
  | cons c cs => rw [idleOf, Command.idle_of_lively c h.1, idleOf_of_lively cs h.2]

end

mutual

theorem Command.Throughout.imp {p q : Command → Prop} (hpq : ∀ c, p c → q c) (c : Command)
    (h : c.Throughout p) : c.Throughout q := by
  cases c with
  | act a => exact hpq _ h
  | loop count body => exact ⟨hpq _ h.1, ThroughoutAll.imp hpq body h.2⟩
  | branch negated thenDo elseDo =>
    exact ⟨hpq _ h.1, ThroughoutAll.imp hpq thenDo h.2.1, ThroughoutAll.imp hpq elseDo h.2.2⟩

theorem ThroughoutAll.imp {p q : Command → Prop} (hpq : ∀ c, p c → q c) (cs : List Command)
    (h : ThroughoutAll p cs) : ThroughoutAll q cs := by
  cases cs with
  | nil => trivial
  | cons c cs => exact ⟨Command.Throughout.imp hpq c h.1, ThroughoutAll.imp hpq cs h.2⟩

end

/-- Programs have no moves of no cells. -/
theorem lively_of_parse {source : String} {budget : Nat} {cs : List Command}
    (h : parse source budget = .ok cs) : Lively cs := by
  refine ThroughoutAll.imp (fun c hc => ?_) cs (admissible_of_parse h).numbers
  cases c with
  | act a =>
    cases a with
    | move heading cells =>
      cases cells with
      | zero => cases hc.1
      | succ cells => rfl
    | _ => rfl
  | _ => rfl

/-! ### Commands without branches -/

section Straight

variable {w : World} {cs rest : List Command} {a : Action}

theorem Straight.boundOf_eq_zero (h : Straight cs) (hnext : next? w cs = none) :
    boundOf cs = 0 := by
  fun_induction next? w cs with
  | case1 => rfl
  | case2 b ds => cases hnext
  | case3 n body ds ih =>
    have hrounds := throughoutAll_rounds h.1.2 n
    have hzero := ih (throughoutAll_append.mpr ⟨hrounds, h.2⟩) hnext
    rwa [boundOf_append, boundOf_rounds] at hzero
  | case4 => cases h.1.1

/-- Taking out the first action pays for just its steps. -/
theorem Straight.of_next? (h : Straight cs) (hnext : next? w cs = some (a, rest)) :
    Straight rest ∧ a.strides + boundOf rest = boundOf cs := by
  refine ⟨(throughoutAll_of_next? h hnext).2, ?_⟩
  fun_induction next? w cs with
  | case1 => cases hnext
  | case2 b ds =>
    cases hnext
    rfl
  | case3 n body ds ih =>
    have hrounds := throughoutAll_rounds h.1.2 n
    have hbound := ih (throughoutAll_append.mpr ⟨hrounds, h.2⟩) hnext
    rwa [boundOf_append, boundOf_rounds] at hbound
  | case4 => cases h.1.1

theorem Action.straight_rest (a : Action) : Straight a.rest := by
  unfold Action.rest
  split
  · exact ⟨rfl, trivial⟩
  · trivial

/-- Without branches there is only one way through commands, and a course that comes to its end has
gone all of it. -/
theorem length_of_straight (h : Straight cs) {count : Nat}
    (hcompleted : ((courseOf cs w).log w count).outcome = .completed) :
    ((courseOf cs w).log w count).beats.length = boundOf cs := by
  induction cs, w using courseOf_induction generalizing count with
  | done cs w hnext => exact (h.boundOf_eq_zero hnext).symm
  | fault cs w a rest f hnext hperform => cases hcompleted
  | step cs w a rest e v hnext hperform ih =>
    obtain ⟨hrest, hbound⟩ := h.of_next? hnext
    have hleft : Straight (a.rest ++ rest) := throughoutAll_append.mpr ⟨a.straight_rest, hrest⟩
    have hlength := ih hleft hcompleted
    -- the action takes its first step now and leaves the others in front of the rest
    have hfirst := a.boundOf_rest
    rw [boundOf_append] at hlength
    rw [log, Log.after, List.length_cons, hlength]
    omega

end Straight

/-! ### Completed runs -/

namespace Course

variable {w : World} {c : Context} {stop? : Option Nat}

/-- A course that is seen to complete is not restricted by its budget or a cancellation. -/
theorem under_of_completed (course : Course)
    (h : (course.under w c stop?).outcome = .completed) :
    course.under w c stop? = course.log w c.count := by
  induction course generalizing w c stop? with
  | done =>
    rw [under] at h ⊢
    split at h
    · cases h
    · next hheed => rw [if_neg hheed, log]
  | fault f =>
    rw [under] at h
    split at h
    · cases h
    · split at h <;> cases h
  | step e v later ih =>
    rw [under] at h ⊢
    split at h
    · cases h
    · next hheed =>
      split at h
      · cases h
      · next hopen =>
        rw [if_neg hheed, if_neg hopen, log]
        exact congrArg (Log.after · _) (ih h)

/-- Every step takes one of the budget. -/
theorem length_under_le (course : Course) (w : World) (c : Context) (stop? : Option Nat) :
    (course.under w c stop?).beats.length ≤ c.budget - c.count := by
  induction course generalizing w c stop? with
  | done => exact Nat.zero_le _
  | fault f => exact Nat.zero_le _
  | step e v later ih =>
    rw [under]
    split
    · exact Nat.zero_le _
    · split
      · exact Nat.zero_le _
      · next hopen =>
        have hlater := ih v { c with count := c.count + 1 } (stop?.map (· - 1))
        rw [Log.after, List.length_cons]
        dsimp only at hlater
        omega

end Course

section Completed

variable {cs : List Command} {w : World} {c : Context} {stop? : Option Nat}
  (h : ((Machine.mk w (.ofCommands cs) c).watch stop?).outcome = .completed)

include h

/-- A run that completes shows the whole course of its commands, within its budget. -/
theorem watch_of_completed :
    let l := (Machine.mk w (.ofCommands cs) c).watch stop?
    l = (courseOf cs w).log w c.count ∧ l.beats.length ≤ c.budget := by
  intro l
  have hl : l = (courseOf cs w).under w c stop? := watch_eq_under w cs c stop?
  have hbudget := length_under_le (courseOf cs w) w c stop?
  rw [← hl] at hbudget
  exact ⟨hl.trans (under_of_completed _ (hl ▸ h)), Nat.le_trans hbudget (Nat.sub_le _ _)⟩

theorem length_le_boundOf :
    ((Machine.mk w (.ofCommands cs) c).watch stop?).beats.length ≤ boundOf cs := by
  rw [(watch_of_completed h).1]
  exact Nat.le_trans (length_log_le _ _ _) (demand_courseOf_le cs w)

/-- Without branches a run that completes takes all steps of the only way there is. -/
theorem length_eq_boundOf (hstraight : Straight cs) :
    ((Machine.mk w (.ofCommands cs) c).watch stop?).beats.length = boundOf cs := by
  have hl := (watch_of_completed h).1
  rw [hl] at h ⊢
  exact length_of_straight hstraight h

/-- The steps of a completed run fit into the counter, so it does not matter that the declared cost
stops there. -/
theorem length_le_costOf (hbudget : c.budget ≤ counterLimit) :
    ((Machine.mk w (.ofCommands cs) c).watch stop?).beats.length ≤ costOf cs + idleOf cs := by
  have hway := Nat.le_trans (length_le_boundOf h) (boundOf_le cs)
  have hlimit := Nat.le_trans (watch_of_completed h).2 hbudget
  rw [costOf_eq, saturate]
  omega

/-- Without branches and with a cost that the counter can show, nothing is left open. -/
theorem length_eq_costOf (hstraight : Straight cs) (hwork : workOf cs ≤ counterLimit) :
    ((Machine.mk w (.ofCommands cs) c).watch stop?).beats.length = costOf cs + idleOf cs := by
  rw [length_eq_boundOf h hstraight, boundOf_of_straight cs hstraight, costOf_eq,
    saturate_eq_self hwork]

end Completed

/-- A move of no cells takes a step, whether it gets anywhere or bumps into the edge. -/
theorem watch_idle_move (heading : Heading) :
    let l := (Machine.mk Level.phaseOne.world (.ofCommands [.act (.move heading 0)])
      { budget := 1 }).watch none
    l.outcome = .completed ∧ l.beats.length = 1 := by
  cases heading <;> decide +kernel

/-- A run that completes takes no more steps than its commands declare and one for each move of no
cells, and just as many if there are no branches and the counter can show the cost. So the declared
cost is right for commands in which every move has a cell to go, as all programs are; a single move
takes as many steps as it has cells only if it has any. -/
theorem completed_runs_spend_cost (cs : List Command) :
    (∀ (w : World) (c : Context) (stop? : Option Nat), c.budget ≤ counterLimit →
        let l := (Machine.mk w (.ofCommands cs) c).watch stop?
        l.outcome = .completed →
          (l.beats.length ≤ costOf cs + idleOf cs ∧
            (Straight cs → workOf cs ≤ counterLimit → l.beats.length = costOf cs + idleOf cs)) ∧
          (Lively cs → l.beats.length ≤ costOf cs ∧
            (Straight cs → workOf cs ≤ counterLimit → l.beats.length = costOf cs))) ∧
      (∀ source budget, parse source budget = .ok cs → Lively cs) ∧
      ∀ heading n, cs = [.act (.move heading n)] →
        ((∀ (w : World) (c : Context) (stop? : Option Nat), c.budget ≤ counterLimit →
            let l := (Machine.mk w (.ofCommands cs) c).watch stop?
            l.outcome = .completed → l.beats.length = n) ↔
          1 ≤ n) := by
  refine ⟨?_, fun source budget => lively_of_parse, ?_⟩
  · intro w c stop? hbudget l hcompleted
    have hle : l.beats.length ≤ costOf cs + idleOf cs := length_le_costOf hcompleted hbudget
    have heq : Straight cs → workOf cs ≤ counterLimit → l.beats.length = costOf cs + idleOf cs :=
      length_eq_costOf hcompleted
    refine ⟨⟨hle, heq⟩, fun hlively => ?_⟩
    rw [idleOf_of_lively cs hlively] at hle heq
    exact ⟨hle, heq⟩
  · rintro heading n rfl
    constructor
    · intro hall
      -- the move of no cells completes after its one step
      rcases Nat.eq_zero_or_pos n with rfl | hn
      · obtain ⟨hcompleted, hlength⟩ := watch_idle_move heading
        have hzero := hall _ { budget := 1 } none (by decide) hcompleted
        exact absurd (hlength.symm.trans hzero) (by decide)
      · exact hn
    · intro hn w c stop? _ l hcompleted
      have hstraight : Straight [.act (.move heading n)] := ⟨rfl, trivial⟩
      have hlength : l.beats.length = boundOf [.act (.move heading n)] :=
        length_eq_boundOf hcompleted hstraight
      rw [hlength]
      exact Nat.max_eq_left hn

/-- A loop of a move and a branch costs eight steps; along the corridor, where nothing burns in the
first cells, it spends four of them. The move back and the turns that follow have no choice. -/
theorem completed_runs_spend_cost_corridor :
    let w := Level.phaseOne.world
    let c : Context := { budget := 20, count := 3 }
    let cs : List Command :=
      [.loop 2 [.act (.move .forward 2), .branch false [.act .collect, .act .cover] []]]
    let ds : List Command := [.act (.move .backward 3), .loop 4 [.act .turnLeft]]
    let l := (Machine.mk w (.ofCommands cs) c).watch none
    let l' := (Machine.mk w (.ofCommands ds) c).watch none
    c.budget ≤ counterLimit ∧
      (l.outcome = .completed ∧ Lively cs ∧ l.beats.length = 4 ∧ costOf cs = 8 ∧
        l.beats.length ≤ costOf cs) ∧
      (l'.outcome = .completed ∧ Lively ds ∧ Straight ds ∧ workOf ds ≤ counterLimit ∧
        l'.beats.length = costOf ds ∧ costOf ds = 7) := by
  intro w c cs ds l l'
  have hbudget : c.budget ≤ counterLimit := by decide
  have hcompleted : l.outcome = .completed := by decide +kernel
  have hcompleted' : l'.outcome = .completed := by decide +kernel
  have hlively : Lively cs := ⟨⟨rfl, rfl, ⟨rfl, ⟨rfl, rfl, trivial⟩, trivial⟩, trivial⟩, trivial⟩
  have hlively' : Lively ds := ⟨rfl, ⟨rfl, rfl, trivial⟩, trivial⟩
  have hstraight : Straight ds := ⟨rfl, ⟨rfl, rfl, trivial⟩, trivial⟩
  have hwork : workOf ds ≤ counterLimit := by decide
  obtain ⟨hle, -⟩ := ((completed_runs_spend_cost cs).1 w c none hbudget hcompleted).2 hlively
  obtain ⟨-, heq⟩ := ((completed_runs_spend_cost ds).1 w c none hbudget hcompleted').2 hlively'
  exact ⟨hbudget, ⟨hcompleted, hlively, by decide +kernel, by decide, hle⟩,
    hcompleted', hlively', hstraight, hwork, heq hstraight hwork, by decide⟩

/-- A move of no cells costs nothing and takes a step. -/
theorem not_completed_runs_spend_cost :
    ¬ ∀ (cs : List Command) (w : World) (c : Context) (stop? : Option Nat),
        c.budget ≤ counterLimit →
          let l := (Machine.mk w (.ofCommands cs) c).watch stop?
          l.outcome = .completed → l.beats.length ≤ costOf cs ∧
            (Straight cs → workOf cs ≤ counterLimit → l.beats.length = costOf cs) := by
  intro hall
  obtain ⟨hcompleted, hlength⟩ := watch_idle_move .forward
  have hle := (hall _ _ { budget := 1 } none (by decide) hcompleted).1
  exact absurd (hlength.symm.trans_le hle) (by decide)

end RobotPuzzle
