import RobotPuzzle.Run.Machine

/-!
# What commands mean

Without a queue, a budget or a cancellation, commands mean the course of events that carrying
them out in a world takes. The course of a sequence is the courses of its commands one after the
other, each in the world that the one before it leaves; a branch looks at its sensor in the world
in which it is reached. The first command that a machine takes out of its queue begins the course
of the whole queue.

## Main definitions

* `Course` — events with the worlds they lead to, up to an end or a fault
* `Course.andThen`, `Course.times` — courses one after the other
* `Action.course`, `Command.course`, `courseOf` — the meaning of commands

## Main results

* `courseOf_append`, `courseOf_rounds` — the meaning of commands put together
* `Action.course_eq` — a move is one stride and then the rest of the move
* `courseOf_of_next?`, `courseOf_of_next?_none` — the first action of a queue
-/

namespace RobotPuzzle

/-- What happens while something is carried out: one event after the other, each with the world
it leads to, until nothing is left to be done or a fault comes up. -/
inductive Course
  | done
  | fault (f : Fault)
  | step (event : Event) (world : World) (later : Course)
  deriving DecidableEq, Repr

namespace Course

/-- A course that begins in `w`, and what happens in the world it leaves. A fault ends it all. -/
def andThen : Course → World → (World → Course) → Course
  | .done, w, next => next w
  | .fault f, _, _ => .fault f
  | .step e w later, _, next => .step e w (later.andThen w next)

/-- The same over and over in the worlds that the rounds before leave. -/
def times (once : World → Course) : Nat → World → Course
  | 0, _ => .done
  | n + 1, w => (once w).andThen w (times once n)

/-- The course of a single step. -/
def ofStep : Except Fault (Event × World) → Course
  | .error f => .fault f
  | .ok (e, w) => .step e w .done

variable {c : Course} {w : World} {f g : World → Course}

@[simp] theorem done_andThen : done.andThen w f = f w := rfl

@[simp] theorem andThen_done : c.andThen w (fun _ => done) = c := by
  induction c generalizing w with
  | done => rfl
  | fault f => rfl
  | step e v later ih => rw [andThen, ih]

theorem andThen_assoc :
    (c.andThen w f).andThen w g = c.andThen w fun v => (f v).andThen v g := by
  induction c generalizing w with
  | done => rfl
  | fault f => rfl
  | step e v later ih => rw [andThen, andThen, andThen, ih]

theorem times_done (n : Nat) : times (fun _ => done) n = fun _ => done := by
  funext w
  induction n generalizing w with
  | zero => rfl
  | succ n ih => exact ih w

end Course

open Course

/-- A move is as many strides as it has cells, and at least one; the other actions are one step
each. -/
def Action.course : Action → World → Course
  | .move heading cells => times (fun w => ofStep (w.stride heading)) (max cells 1)
  | a => fun w => ofStep (a.perform w)

mutual

/-- The course of a command. The sensor of a branch is read in the world in which the branch is
reached. -/
def Command.course : Command → World → Course
  | .act a => a.course
  | .loop count body => times (courseOf body) count
  | .branch negated thenDo elseDo => fun w =>
    if w.onFire != negated then courseOf thenDo w else courseOf elseDo w

/-- The course of commands carried out from left to right. -/
def courseOf : List Command → World → Course
  | [] => fun _ => .done
  | c :: cs => fun w => (c.course w).andThen w (courseOf cs)

end

@[simp] theorem courseOf_nil (w : World) : courseOf [] w = .done := rfl

theorem courseOf_cons (c : Command) (cs : List Command) (w : World) :
    courseOf (c :: cs) w = (c.course w).andThen w (courseOf cs) := rfl

theorem courseOf_singleton (c : Command) : courseOf [c] = c.course := by
  funext w
  exact andThen_done

theorem courseOf_append (cs ds : List Command) (w : World) :
    courseOf (cs ++ ds) w = (courseOf cs w).andThen w (courseOf ds) := by
  induction cs generalizing w with
  | nil => rfl
  | cons c cs ih =>
    have hfun : courseOf (cs ++ ds) = fun v => (courseOf cs v).andThen v (courseOf ds) :=
      funext ih
    rw [List.cons_append, courseOf_cons, courseOf_cons, andThen_assoc, hfun]

theorem courseOf_rounds (n : Nat) (body : List Command) :
    courseOf (rounds n body) = times (courseOf body) n := by
  rw [rounds_eq]
  induction n with
  | zero => rfl
  | succ n ih =>
    funext w
    rw [List.replicate_succ, List.flatten_cons, courseOf_append, ih]
    rfl

/-- An action is its first step and then what is left of it. -/
theorem Action.course_eq (a : Action) (w : World) :
    a.course w = (ofStep (a.perform w)).andThen w (courseOf a.rest) := by
  cases a with
  | move heading cells =>
    -- a move of at most one cell is a single stride
    match cells with
    | 0 => rfl
    | 1 => rfl
    | n + 2 =>
      rw [Action.rest, courseOf_singleton, Command.course, Action.course, Action.course,
        Nat.max_eq_left (Nat.le_add_left 1 n), Nat.max_eq_left (Nat.le_add_left 1 (n + 1))]
      rfl
  | _ => exact andThen_done.symm

theorem courseOf_loop (n : Nat) (body cs : List Command) (w : World) :
    courseOf (.loop n body :: cs) w = courseOf (rounds n body ++ cs) w := by
  rw [courseOf_cons, Command.course, courseOf_append, courseOf_rounds]

theorem courseOf_branch (negated : Bool) (thenDo elseDo cs : List Command) (w : World) :
    courseOf (.branch negated thenDo elseDo :: cs) w =
      courseOf ((if w.onFire != negated then thenDo else elseDo) ++ cs) w := by
  rw [courseOf_cons, Command.course, courseOf_append]
  by_cases h : (w.onFire != negated) = true
  · simp only [if_pos h]
  · simp only [if_neg h]

theorem courseOf_of_next?_none {w : World} {cs : List Command} (h : next? w cs = none) :
    courseOf cs w = .done := by
  fun_induction next? w cs with
  | case1 => rfl
  | case2 a ds => cases h
  | case3 n body ds ih =>
    rw [courseOf_loop]
    exact ih h
  | case4 negated thenDo elseDo ds ih =>
    rw [courseOf_branch]
    exact ih h

/-- The course of a queue begins with one step of its first action. -/
theorem courseOf_of_next? {w : World} {cs rest : List Command} {a : Action}
    (h : next? w cs = some (a, rest)) :
    courseOf cs w = (ofStep (a.perform w)).andThen w (courseOf (a.rest ++ rest)) := by
  fun_induction next? w cs with
  | case1 => cases h
  | case2 b ds =>
    cases h
    -- what is left of the action comes before the rest of the queue
    have hfun : courseOf (a.rest ++ rest) =
        fun v => (courseOf a.rest v).andThen v (courseOf rest) :=
      funext (courseOf_append a.rest rest)
    rw [courseOf_cons, Command.course, Action.course_eq, andThen_assoc, hfun]
  | case3 n body ds ih =>
    rw [courseOf_loop]
    exact ih h
  | case4 negated thenDo elseDo ds ih =>
    rw [courseOf_branch]
    exact ih h

end RobotPuzzle
