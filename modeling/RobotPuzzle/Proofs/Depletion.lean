import Mathlib.Data.List.Nodup
import RobotPuzzle.Proofs.Winning

/-!
# Hazards are used up

A hazard is dealt with once. Nothing that runs do makes it active again, so a cell whose fire was
put out, or whose hazard was covered, is not heard of as a fire any more, neither by an event nor by
a branch that asks the sensor. A hole is never taken for a fire at all. This holds along one run and
along several of them, one after the other in the same world.

## Main definitions

* `Event.dealtWith?` — the cell whose hazard an event has dealt with
* `Observation` — a test of the fire sensor, or an event
* `Observation.fire?` — the cell that an observation speaks of as burning
* `survey` — the first action of some commands, with the tests made on the way to it
* `Machine.observed`, `World.across` — what is observed of a run, and of several
* `Observed` — observations that lead from one world to another

## Main results

* `Effect.hazardAt?_eq`, `Observed.hazardAt?_eq` — which hazards are left, after one step and after
  many
* `Observed.burning_of_fire?`, `Observed.hazardous_of_dealtWith?` — what is observed was there at
  first
* `hazards_used_up_once` — hazards are dealt with at most once, and do not come back
-/

namespace RobotPuzzle

variable {w v u : World} {a : Action} {e : Event} {c d : Cell} {g g' : Grid}
  {kind? : Option HazardKind}

/-! ### What is left of a hazard -/

theorem Grid.Burning.hazardous (h : g.Burning c) : g.Hazardous c := by
  obtain ⟨hazard, hfound, hactive, -⟩ := h
  exact ⟨hazard, hfound, hactive⟩

/-- The cell whose hazard an event has dealt with. -/
def Event.dealtWith? : Event → Option Cell
  | extinguished c | covered c => some c
  | _ => none

/-- A step leaves every hazard as it was, but for one that its event has dealt with. -/
theorem Effect.hazardAt?_eq (h : Effect w a e v) (c : Cell) :
    v.grid.hazardAt? c =
      if e.dealtWith? = some c then (w.grid.hazardAt? c).map fun h => { h with active := false }
      else w.grid.hazardAt? c := by
  have hdealt : ∀ {kind? g}, w.grid.deactivate? w.robot.cell kind? = some g →
      g.hazardAt? c =
        if some w.robot.cell = some c then
          (w.grid.hazardAt? c).map fun h => { h with active := false }
        else w.grid.hazardAt? c := by
    intro kind? g hdeactivate
    rw [Grid.hazardAt?_of_deactivate? hdeactivate]
    simp only [Option.some.injEq, eq_comm (a := c)]
  cases h with
  | extinguished fire => exact hdealt fire
  | covered hazard => exact hdealt hazard
  | moved | bumped | turnedLeft | turnedRight | collected | collectMissed | extinguishMissed
  | coverMissed => rfl

/-- What an event has dealt with was active. -/
theorem Effect.hazardous_of_dealtWith? (h : Effect w a e v) (hdealt : e.dealtWith? = some c) :
    w.grid.Hazardous c := by
  cases h with
  | extinguished fire =>
    obtain rfl := Option.some.inj hdealt
    exact (Grid.deactivate?_fire_eq_some_iff.mp fire).1.hazardous
  | covered hazard =>
    obtain rfl := Option.some.inj hdealt
    exact (Grid.deactivate?_any_eq_some_iff.mp hazard).1
  | moved | bumped | turnedLeft | turnedRight | collected | collectMissed | extinguishMissed
  | coverMissed => cases hdealt

/-- What was dealt with is active no more. -/
theorem Effect.not_hazardous (h : Effect w a e v) (hdealt : e.dealtWith? = some c) :
    ¬ v.grid.Hazardous c := by
  rintro ⟨hazard, hfound, hactive⟩
  rw [h.hazardAt?_eq, if_pos hdealt, Option.map_eq_some_iff] at hfound
  obtain ⟨before, -, rfl⟩ := hfound
  cases hactive

/-- A hazard that is there after a step was there before it. -/
theorem Effect.hazardAt?_of_active (h : Effect w a e v) {hazard : Hazard}
    (hfound : v.grid.hazardAt? c = some hazard) (hactive : hazard.active = true) :
    w.grid.hazardAt? c = some hazard := by
  by_cases hdealt : e.dealtWith? = some c
  · exact absurd ⟨hazard, hfound, hactive⟩ (h.not_hazardous hdealt)
  · rwa [h.hazardAt?_eq, if_neg hdealt] at hfound

theorem Effect.hazardous_before (h : Effect w a e v) (hc : v.grid.Hazardous c) :
    w.grid.Hazardous c := by
  obtain ⟨hazard, hfound, hactive⟩ := hc
  exact ⟨hazard, h.hazardAt?_of_active hfound hactive, hactive⟩

theorem Effect.burning_before (h : Effect w a e v) (hc : v.grid.Burning c) :
    w.grid.Burning c := by
  obtain ⟨hazard, hfound, hactive, hkind⟩ := hc
  exact ⟨hazard, h.hazardAt?_of_active hfound hactive, hactive, hkind⟩

/-! ### Observations -/

/-- What can be observed of a run: a branch asks the sensor for fire under the robot, or a step
reports its event. -/
inductive Observation
  | sensed (c : Cell) (fire : Bool)
  | reported (e : Event)
  deriving DecidableEq, Repr

namespace Observation

/-- The event that is observed, if it is one. -/
def event? : Observation → Option Event
  | sensed .. => none
  | reported e => some e

/-- The cell whose hazard has been dealt with. -/
def dealtWith? (o : Observation) : Option Cell := o.event?.bind Event.dealtWith?

/-- The cell that an observation speaks of as burning: fire is sensed there, the robot moves into
it, or it is put out. -/
def fire? : Observation → Option Cell
  | sensed c true | reported (.moved _ c true) | reported (.extinguished c) => some c
  | _ => none

end Observation

/-- The first action of some commands in a world and the commands that follow it, with the tests of
the sensor that are made on the way to it. -/
def survey (w : World) : List Command → List Observation × Option (Action × List Command)
  | [] => ([], none)
  | .act a :: cs => ([], some (a, cs))
  | .loop n body :: cs => survey w (rounds n body ++ cs)
  | .branch negated thenDo elseDo :: cs =>
    -- the sensor is asked before it is known which block comes first
    let fire := w.onFire
    let (later, first?) := survey w ((if fire != negated then thenDo else elseDo) ++ cs)
    (.sensed w.robot.cell fire :: later, first?)
termination_by cs => weightOf cs
decreasing_by
  · simp only [rounds_eq, weightOf_append, weightOf_replicate, weightOf, Command.weight]
    omega
  · simp only [weightOf_append, weightOf, Command.weight]
    split <;> omega

/-- Watching the sensor does not change what comes first. -/
theorem survey_snd (w : World) (cs : List Command) : (survey w cs).2 = next? w cs := by
  fun_induction survey w cs with
  | case1 => exact (next?_nil w).symm
  | case2 a cs => exact (next?_act w a cs).symm
  | case3 n body cs ih => rw [ih, next?_loop, rounds_eq]
  | case4 negated thenDo elseDo cs fire later first? hlater ih =>
    rw [hlater] at ih
    rw [next?_branch]
    exact ih

namespace Machine

/-- The tests that a step of a machine makes. A run that is over or cancelled makes none. -/
def tests (m : Machine) : List Observation :=
  if m.executor.outcome? = none ∧ m.context.cancelled = false then
    (survey m.world m.executor.pending).1
  else []

/-- What is observed of a machine while it is stepped and cancelled. A step makes its tests before
it is applied. -/
def observed (m : Machine) : List Touch → List Observation
  | [] => []
  | .step :: ts =>
    m.tests ++ m.step.1.event?.toList.map .reported ++ m.step.2.observed ts
  | .cancel :: ts => m.cancel.observed ts

end Machine

/-- A run of some commands, as far as it is stepped and cancelled. -/
structure Attempt where
  commands : List Command
  context : Context
  touches : List Machine.Touch

/-- The machine that an attempt begins with. -/
def Attempt.machine (t : Attempt) (w : World) : Machine :=
  { world := w, executor := .ofCommands t.commands, context := t.context }

namespace World

/-- The world after several attempts, each in the world that the one before it has left. -/
def afterAttempts (w : World) (ts : List Attempt) : World :=
  ts.foldl (fun w t => ((t.machine w).handled t.touches).world) w

/-- What is told of several attempts, each in the world that the one before it has left. -/
def across {α : Type} (tell : Machine → List Machine.Touch → List α) (w : World) :
    List Attempt → List α
  | [] => []
  | t :: ts =>
    tell (t.machine w) t.touches ++ ((t.machine w).handled t.touches).world.across tell ts

end World

/-- Observations that lead from one world to another: tests of the sensor, which change nothing, and
events of actions. -/
inductive Observed : World → List Observation → World → Prop
  | nil {w : World} : Observed w [] w
  | sensed {w v : World} {os : List Observation} :
    Observed w os v → Observed w (.sensed w.robot.cell w.onFire :: os) v
  | reported {w v u : World} {a : Action} {e : Event} {os : List Observation} :
    Effect w a e v → Observed v os u → Observed w (.reported e :: os) u

namespace Observed

variable {os ps : List Observation} {o : Observation}

theorem append (h : Observed w os v) (h' : Observed v ps u) : Observed w (os ++ ps) u := by
  induction h with
  | nil => exact h'
  | sensed _ ih => exact .sensed (ih h')
  | reported heffect _ ih => exact .reported heffect (ih h')

/-- The events among observations lead to the same world. -/
theorem chronicle (h : Observed w os v) : Chronicle w (os.filterMap Observation.event?) v := by
  induction h with
  | nil => exact .nil
  | sensed _ ih => exact ih
  | reported heffect _ ih => exact .cons heffect ih

/-- Observations leave every hazard as it was, but for those that were dealt with. -/
theorem hazardAt?_eq (h : Observed w os v) (c : Cell) :
    v.grid.hazardAt? c =
      if c ∈ os.filterMap Observation.dealtWith? then
        (w.grid.hazardAt? c).map fun h => { h with active := false }
      else w.grid.hazardAt? c := by
  induction h with
  | nil => simp
  | sensed _ ih => exact ih
  | @reported w v u a e os heffect _ ih =>
    rw [ih, heffect.hazardAt?_eq]
    have hfirst : Observation.dealtWith? (.reported e) = e.dealtWith? := rfl
    by_cases hdealt : e.dealtWith? = some c
    · -- what was dealt with stays inactive, also where it would be dealt with again
      have hmem : c ∈ (Observation.reported e :: os).filterMap Observation.dealtWith? :=
        List.mem_filterMap.mpr ⟨_, List.mem_cons_self, hfirst.trans hdealt⟩
      rw [if_pos hdealt, if_pos hmem, Option.map_map]
      exact ite_self _
    · have hmem : c ∈ (Observation.reported e :: os).filterMap Observation.dealtWith? ↔
          c ∈ os.filterMap Observation.dealtWith? := by
        simp [hfirst, hdealt]
      simp only [if_neg hdealt, hmem]

/-- Where fire is observed, it burned at first. -/
theorem burning_of_fire? (h : Observed w os v) (ho : o ∈ os) (hfire : o.fire? = some c) :
    w.grid.Burning c := by
  -- on the observations: no step lights a fire, so one that is observed later burned before
  induction h with
  | nil => cases ho
  | @sensed w v os _ ih =>
    obtain rfl | hlater := List.mem_cons.mp ho
    · cases hsense : w.onFire with
      | false =>
        rw [hsense] at hfire
        cases hfire
      | true =>
        rw [hsense] at hfire
        obtain rfl := Option.some.inj hfire
        exact Grid.onFire_iff.mp hsense
    · exact ih hlater
  | @reported w v u a e os heffect _ ih =>
    obtain rfl | hlater := List.mem_cons.mp ho
    · obtain ⟨htells, -⟩ := effect_iff_tells.mp heffect
      cases e with
      | moved source target burning =>
        cases burning with
        | false => cases hfire
        | true =>
          obtain rfl := Option.some.inj hfire
          exact htells.2.2.2.2.mp rfl
      | extinguished c =>
        obtain rfl := Option.some.inj hfire
        exact htells.2.2
      | bumped | turned | collected | collectMissed | extinguishMissed | covered | coverMissed =>
        cases hfire
    · exact heffect.burning_before (ih hlater)

/-- What is dealt with was active at first. -/
theorem hazardous_of_dealtWith? (h : Observed w os v) (ho : o ∈ os)
    (hdealt : o.dealtWith? = some c) : w.grid.Hazardous c := by
  induction h with
  | nil => cases ho
  | sensed _ ih =>
    obtain rfl | hlater := List.mem_cons.mp ho
    · cases hdealt
    · exact ih hlater
  | reported heffect _ ih =>
    obtain rfl | hlater := List.mem_cons.mp ho
    · exact heffect.hazardous_of_dealtWith? hdealt
    · exact heffect.hazardous_before (ih hlater)

/-- A cell that was dealt with is not observed again, as a fire or as one to be dealt with. -/
theorem pairwise (h : Observed w os v) :
    os.Pairwise fun o later =>
      ∀ c, o.dealtWith? = some c → later.fire? ≠ some c ∧ later.dealtWith? ≠ some c := by
  induction h with
  | nil => exact .nil
  | sensed _ ih => exact .cons (fun _ _ _ hdealt => nomatch hdealt) ih
  | reported heffect hrest ih =>
    refine .cons (fun later hlater c hdealt => ?_) ih
    -- what was dealt with is not active, and only what is active can be observed
    have hover := heffect.not_hazardous hdealt
    exact ⟨fun hfire => hover (hrest.burning_of_fire? hlater hfire).hazardous,
      fun hagain => hover (hrest.hazardous_of_dealtWith? hlater hagain)⟩

/-- No cell is dealt with twice. -/
theorem nodup_dealtWith (h : Observed w os v) : (os.filterMap Observation.dealtWith?).Nodup := by
  refine List.pairwise_filterMap.mpr (h.pairwise.imp ?_)
  rintro o later hover c hdealt _ hagain rfl
  exact (hover c hdealt).2 hagain

end Observed

/-! ### The observations of runs -/

/-- The tests of a survey are tests in its world. -/
theorem observed_survey (w : World) (cs : List Command) : Observed w (survey w cs).1 w := by
  fun_induction survey w cs with
  | case1 => exact .nil
  | case2 => exact .nil
  | case3 n body cs ih => exact ih
  | case4 negated thenDo elseDo cs fire later first? hlater ih =>
    rw [hlater] at ih
    exact .sensed ih

namespace Machine

theorem observed_tests (m : Machine) : Observed m.world m.tests m.world := by
  unfold tests
  split
  · exact observed_survey m.world m.executor.pending
  · exact .nil

/-- A step is observed by its tests and by its event. -/
theorem observed_step (m : Machine) :
    Observed m.world (m.tests ++ m.step.1.event?.toList.map .reported) m.step.2.world := by
  refine m.observed_tests.append ?_
  rcases hstep : m.step with ⟨s, m'⟩
  cases advance_of_step hstep with
  -- in all other steps the world stays as it is, and there is no event
  | performed live untold due left effect => exact .reported effect .nil
  | ended | cancelled | completed | spent | faulted => exact .nil

/-- What is observed of a machine leads to its world. -/
theorem observed_handled (m : Machine) (ts : List Touch) :
    Observed m.world (m.observed ts) (m.handled ts).world := by
  induction ts generalizing m with
  | nil => exact .nil
  | cons t ts ih =>
    cases t with
    | step => exact m.observed_step.append (ih m.step.2)
    | cancel => exact ih m.cancel

theorem filterMap_event?_tests (m : Machine) : m.tests.filterMap Observation.event? = [] := by
  have hsurvey : ∀ w cs, (survey w cs).1.filterMap Observation.event? = [] := by
    intro w cs
    fun_induction survey w cs with
    | case1 => rfl
    | case2 => rfl
    | case3 n body cs ih => exact ih
    | case4 negated thenDo elseDo cs fire later first? hlater ih =>
      rw [hlater] at ih
      exact ih
  unfold tests
  split
  · exact hsurvey _ _
  · rfl

/-- The events that are observed are those that are reported. -/
theorem filterMap_event?_observed (m : Machine) (ts : List Touch) :
    (m.observed ts).filterMap Observation.event? = m.reported ts := by
  have hevents : ∀ es : List Event,
      (es.map Observation.reported).filterMap Observation.event? = es := by
    intro es
    simp [List.filterMap_map, Function.comp_def, Observation.event?]
  induction ts generalizing m with
  | nil => rfl
  | cons t ts ih =>
    cases t with
    | step =>
      rw [observed, reported, List.filterMap_append, List.filterMap_append,
        filterMap_event?_tests, hevents, ih, List.nil_append]
    | cancel => exact ih m.cancel

end Machine

namespace World

theorem observed_across (w : World) (ts : List Attempt) :
    Observed w (w.across Machine.observed ts) (w.afterAttempts ts) := by
  induction ts generalizing w with
  | nil => exact .nil
  | cons t ts ih =>
    exact ((t.machine w).observed_handled t.touches).append (ih _)

theorem filterMap_event?_across (w : World) (ts : List Attempt) :
    (w.across Machine.observed ts).filterMap Observation.event? =
      w.across Machine.reported ts := by
  induction ts generalizing w with
  | nil => rfl
  | cons t ts ih =>
    rw [across, across, List.filterMap_append, Machine.filterMap_event?_observed, ih]

end World

theorem filterMap_dealtWith? (os : List Observation) :
    os.filterMap Observation.dealtWith? =
      (os.filterMap Observation.event?).filterMap Event.dealtWith? :=
  List.filterMap_filterMap.symm

/-- Hazards are used up at most once and do not come back by themselves. Along any number of runs,
whatever they carry out and however they are stepped and cancelled, a cell is put out or covered
once at the most, and the crystal is collected once at the most. A cell that was dealt with is not
spoken of as burning afterwards, by no event and by no test of the sensor. A hole is never spoken of
as burning: it is not put out, only covered. What is left of the hazards are those that were not
dealt with. -/
theorem hazards_used_up_once (w : World) (ts : List Attempt) :
    let os := w.across Machine.observed ts
    let es := w.across Machine.reported ts
    let dealt := es.filterMap Event.dealtWith?
    os.filterMap Observation.event? = es ∧
      (∀ c, dealt.count c ≤ 1) ∧
      (es.filterMap Event.collectedCell?).length ≤ 1 ∧
      (os.Pairwise fun o later =>
        ∀ c, o.dealtWith? = some c → later.fire? ≠ some c ∧ later.dealtWith? ≠ some c) ∧
      (∀ c h, w.grid.hazardAt? c = some h → h.kind = .hole → ∀ o ∈ os, o.fire? ≠ some c) ∧
      ∀ c, (w.afterAttempts ts).grid.hazardAt? c =
        if c ∈ dealt then (w.grid.hazardAt? c).map fun h => { h with active := false }
        else w.grid.hazardAt? c := by
  intro os es dealt
  have hobserved : Observed w os (w.afterAttempts ts) := w.observed_across ts
  have hevents : os.filterMap Observation.event? = es := w.filterMap_event?_across ts
  have hdealt : os.filterMap Observation.dealtWith? = dealt := by
    rw [filterMap_dealtWith?, hevents]
  refine ⟨hevents, fun c => ?once, ?collected, hobserved.pairwise,
    fun c h hfound hhole o ho hfire => ?hole, fun c => ?left⟩
  case once =>
    rw [← hdealt]
    exact List.nodup_iff_count_le_one.mp hobserved.nodup_dealtWith c
  case collected =>
    have hchronicle := hobserved.chronicle
    rw [hevents] at hchronicle
    rw [hchronicle.collections]
    split <;> simp
  case hole =>
    -- what burns was registered as a fire, and no cell has two hazards
    obtain ⟨h', hfound', -, hburns⟩ := hobserved.burning_of_fire? ho hfire
    rw [hfound] at hfound'
    cases hfound'
    rw [hhole] at hburns
    cases hburns
  case left =>
    rw [← hdealt]
    exact hobserved.hazardAt?_eq c

/-- A fire and a hole on the way, each of them dealt with in its own way and then tried again in
both, and a second run that goes back to where the fire was. -/
theorem hazards_used_up_once_fire_and_hole :
    let w : World :=
      { grid := (Grid.empty 4 |>.addHazard .fire ⟨1, 0⟩).addHazard .hole ⟨2, 0⟩
        robot := ⟨⟨0, 0⟩, .east⟩
        crystal := ⟨⟨3, 0⟩, false⟩
        spawn := ⟨⟨0, 0⟩, .east⟩ }
    let round : List Command := [.act (.move .forward 1),
      .branch false [.act .extinguish] [.act .cover], .branch true [.act .cover] [],
      .act .extinguish]
    let ts : List Attempt := [⟨[.loop 2 round], { budget := 8 }, List.replicate 9 .step⟩,
      ⟨[.act (.move .backward 1), .branch false [] [.act .cover]], { budget := 2 },
        [.step, .step, .cancel, .step]⟩]
    let os := w.across Machine.observed ts
    let dealt := (w.across Machine.reported ts).filterMap Event.dealtWith?
    os =
        [.reported (.moved ⟨0, 0⟩ ⟨1, 0⟩ true), .sensed ⟨1, 0⟩ true,
          .reported (.extinguished ⟨1, 0⟩), .sensed ⟨1, 0⟩ false, .reported (.coverMissed ⟨1, 0⟩),
          .reported (.extinguishMissed ⟨1, 0⟩), .reported (.moved ⟨1, 0⟩ ⟨2, 0⟩ false),
          .sensed ⟨2, 0⟩ false, .reported (.covered ⟨2, 0⟩), .sensed ⟨2, 0⟩ false,
          .reported (.coverMissed ⟨2, 0⟩), .reported (.extinguishMissed ⟨2, 0⟩),
          .reported (.moved ⟨2, 0⟩ ⟨1, 0⟩ false), .sensed ⟨1, 0⟩ false,
          .reported (.coverMissed ⟨1, 0⟩)] ∧
      dealt.count ⟨1, 0⟩ ≤ 1 ∧ dealt.count ⟨2, 0⟩ ≤ 1 ∧
      w.grid.hazardAt? ⟨2, 0⟩ = some ⟨⟨2, 0⟩, .hole, true⟩ ∧
      (∀ o ∈ os, o.fire? ≠ some ⟨2, 0⟩) ∧
      (∀ o ∈ os.drop 3, o.fire? ≠ some ⟨1, 0⟩) ∧
      (w.afterAttempts ts).grid.hazardAt? ⟨2, 0⟩ = some ⟨⟨2, 0⟩, .hole, false⟩ := by
  intro w round ts os dealt
  have hos : os = os.take 2 ++ .reported (.extinguished ⟨1, 0⟩) :: os.drop 3 := by decide +kernel
  have hhole : w.grid.hazardAt? ⟨2, 0⟩ = some ⟨⟨2, 0⟩, .hole, true⟩ := by decide +kernel
  have hcovered : (⟨2, 0⟩ : Cell) ∈ dealt := by decide +kernel
  obtain ⟨-, honce, -, hlater, hholes, hleft⟩ := hazards_used_up_once w ts
  change os.Pairwise _ at hlater
  rw [hos, List.pairwise_append, List.pairwise_cons] at hlater
  obtain ⟨-, ⟨hafter, -⟩, -⟩ := hlater
  refine ⟨by decide +kernel, honce _, honce _, hhole, hholes _ _ hhole rfl,
    fun o ho => (hafter o ho ⟨1, 0⟩ rfl).1, ?_⟩
  rw [hleft, if_pos hcovered, hhole]
  rfl

end RobotPuzzle
