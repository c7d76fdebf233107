import RobotPuzzle.CommandLine
import RobotPuzzle.Proofs.Driving
import RobotPuzzle.Proofs.Spelling
import RobotPuzzle.Proofs.Transcript

/-!
# What the command line reports

The command line succeeds just if the program is accepted. Then it prints the steps of its run, one
line for each event, under numbers that count up from one; what the console says of them; and the
verdict. Accepted programs complete, so there is no other end to report. A program that is rejected
is told so, and nothing is run.

## Main definitions

* `CommandLine.Selects` — the level that the arguments after the program select
* `CommandLine.numbered` — the events of a run in numbered lines
* `CommandLine.verdict` — the last line about a run that was completed

## Main results

* `Session.machine_of_step`, `Session.tickAll_of_run` — a session drives its machine
* `Session.console_tickAll` — the console after a run that was driven to its end
* `CommandLine.traced_events` — tracing a run prints its numbered lines
* `CommandLine.tickAll_launch`, `CommandLine.console_launch` — what the run of an accepted program
  comes to
* `CommandLine.playOn_of_ok`, `CommandLine.playOn_of_error` — the report for a program on a level
* `command_line_reports_run` — the report for a program and a level that can be read
-/

namespace RobotPuzzle

/-! ### A session drives its machine -/

namespace Session

variable {s : Session} {run : ActiveRun}

theorem machine_narrate (s : Session) (e : Event) (run : ActiveRun) :
    (s.narrate e).machine run = s.machine run := by
  obtain ⟨console, hnarrate⟩ := narrate_eq s e
  rw [hnarrate]
  rfl

/-- The machine of a session that has applied a step is the machine after that step. -/
theorem machine_of_step {e : Event} {m : Machine} (hstep : (s.machine run).step = (.applied e, m)) :
    let next : ActiveRun := { run with executor := m.executor, count := m.context.count }
    (({ s with world := m.world, run? := some next } : Session).narrate e).machine next = m := by
  intro next
  obtain ⟨-, hcontext⟩ := Machine.step_applied hstep
  have hsame : m.context = { (s.machine run).context with count := m.context.count } := by
    rw [hcontext]
  rw [machine_narrate]
  simp only [machine, isCancelled] at hsame ⊢
  rw [← hsame]

/-- Ticking a session to the end of its run, all comes out as it does for the machine of the run. -/
theorem tickAll_of_run (hrun : s.run? = some run) :
    s.tickAll.1 = (s.machine run).run.events ∧
      s.tickAll.2.lastOutcome = some (s.machine run).run.outcome ∧
      (s.tickAll.2.phase = .won ↔
        (s.machine run).run.outcome = .completed ∧ (s.machine run).run.machine.world.Won) := by
  induction s using tick_induction generalizing run with
  | last s s' htick =>
    rcases hstep : (s.machine run).step with ⟨e | o, m⟩
    · cases (tick_of_applied hrun hstep).symm.trans htick
    · obtain ⟨-, rfl⟩ := Prod.mk.inj ((tick_of_finished hrun hstep).symm.trans htick)
      rw [tickAll_of_none htick, Machine.run_of_finished hstep]
      exact ⟨rfl, finish_lastOutcome _ o, phase_finish_eq_won_iff _ o⟩
  | next s e s' htick ih =>
    rcases hstep : (s.machine run).step with ⟨e' | o, m⟩
    · have hmachine := machine_of_step hstep
      obtain ⟨heq, rfl⟩ := Prod.mk.inj ((tick_of_applied hrun hstep).symm.trans htick)
      obtain rfl := Option.some.inj heq
      obtain ⟨hevents, hrest⟩ := ih (narrate_run? _ e')
      rw [hmachine] at hevents hrest
      rw [tickAll_of_some htick, Machine.run_of_applied hstep]
      exact ⟨congrArg (e' :: ·) hevents, hrest⟩
    · cases (tick_of_finished hrun hstep).symm.trans htick

/-- A run that is driven to its end adds the lines of its events to the console, and its last
line. -/
theorem console_tickAll (hrun : s.run? = some run) (hs : s.world.Recalls []) :
    s.tickAll.2.console = s.console ++ Event.lines [] s.tickAll.1 ++ s.tickAll.2.parting := by
  have hdriven := s.driven_runToCompletion
  rw [runToCompletion_eq] at hdriven
  exact hdriven.console_eq hrun hs

end Session

/-- The active run of a level that was just entered has the machine of its commands. -/
theorem Level.machine_launch (l : Level) (commands : List Command) :
    ∃ run, ((Session.ofLevel l).fresh.launch commands).run? = some run ∧
      ((Session.ofLevel l).fresh.launch commands).machine run = l.machine commands := by
  refine ⟨_, rfl, ?_⟩
  have hworld : (Session.ofLevel l).fresh.world = l.world := l.reset_world
  rw [Level.machine, ← hworld]
  rfl

namespace CommandLine

open Session

variable {read : String → Except ReadError String} {load : String → Except LevelError Level}
  {path source : String} {more : List String} {l : Level} {commands : List Command}
  {events : List Event}

/-- The arguments after the program select a level: the first level of the game, or one that is
loaded from the text of a file. -/
inductive Selects (read : String → Except ReadError String)
    (load : String → Except LevelError Level) : List String → Level → Prop
  | first : Selects read load [] Level.phaseOne
  | file {path text : String} {rest : List String} {l : Level} (readable : read path = .ok text)
      (valid : load text = .ok l) (payable : l.budget < counterLimit) :
      Selects read load (path :: rest) l

theorem Selects.payable (h : Selects read load more l) : l.budget < counterLimit := by
  cases h with
  | first => decide
  | file _ _ payable => exact payable

/-- The level of a file is that of its configuration. -/
theorem ofFile_eq_ok_iff {text : String} :
    Level.ofFile text = .ok l ↔ Config.ofFile text = .ok l.config := by
  unfold Level.ofFile
  cases Config.ofFile text with
  | error e => simp
  | ok c =>
    have hlevel : Level.ofConfig c = .ok l ↔ c = l.config := by
      rw [Level.ofConfig_eq_ok_iff]
      exact ⟨fun h => h.2.symm, fun h => ⟨h ▸ l.sound, h.symm⟩⟩
    cases hc : Level.ofConfig c with
    | error e => simp [← hlevel, hc]
    | ok l' => simp [← hlevel, hc]

theorem play_eq (hsource : read path = .ok source) (h : Selects read load more l) :
    play read (path :: more) load = playOn l source := by
  cases h with
  | first => simp only [play, prepare, hsource]
  | file readable valid _ => simp only [play, prepare, hsource, readable, valid]

/-! ### Tracing -/

/-- Events in lines with numbers that follow a given one. -/
def numbered (before : Nat) (events : List Event) : List String :=
  events.mapIdx fun i e => padded (before + i + 1) ++ ": " ++ e.report

theorem numbered_cons (before : Nat) (e : Event) (events : List Event) :
    numbered before (e :: events) =
      (padded (before + 1) ++ ": " ++ e.report) :: numbered (before + 1) events := by
  simp only [numbered, List.mapIdx_cons, Nat.add_assoc, Nat.add_comm 1]

theorem forM_traced (events : List Event) (t : Trace) :
    (forM events traced).run t =
      ((), ⟨t.steps + events.length, t.lines ++ (numbered t.steps events).toArray⟩) := by
  induction events generalizing t with
  | nil =>
    have hnothing : t.lines ++ (numbered t.steps []).toArray = t.lines := by simp [numbered]
    rw [hnothing]
    rfl
  | cons e events ih =>
    have hrest := ih ⟨t.steps + 1, t.lines.push (padded (t.steps + 1) ++ ": " ++ e.report)⟩
    refine hrest.trans ?_
    simp [numbered_cons, Nat.add_assoc, Nat.add_comm 1]

/-- Tracing a run prints its events in numbered lines, and drives it to its end. -/
theorem traced_events (s : Session) :
    (s.runPaced traced).run {} =
      ((s.tickAll.2.lastOutcome, s.tickAll.2),
        ⟨s.tickAll.1.length, (numbered 0 s.tickAll.1).toArray⟩) := by
  have hlines : (forM s.tickAll.1 traced).run {} =
      ((), ⟨s.tickAll.1.length, (numbered 0 s.tickAll.1).toArray⟩) := by
    rw [forM_traced, Nat.zero_add, Array.empty_append]
  rw [runPaced_eq, StateT.run_bind, hlines]
  rfl

/-! ### The report for a program on a level -/

/-- The run of an accepted program is completed within the budget. -/
theorem tickAll_launch (hbudget : l.budget < counterLimit)
    (hparse : parse source l.budget = .ok commands) :
    let run := (l.machine commands).run
    let started := (ofLevel l).fresh.launch commands
    (started.tickAll.1 = run.events ∧ started.tickAll.1.length ≤ l.budget) ∧
      (run.outcome = .completed ∧ started.tickAll.2.lastOutcome = some .completed) ∧
      (started.tickAll.2.phase = .won ↔ run.machine.world.Won) := by
  intro run started
  obtain ⟨active, hactive, hmachine⟩ := l.machine_launch commands
  obtain ⟨hcompleted, hlength⟩ := (Level.funded_machine hbudget hparse).run rfl
  obtain ⟨hbound, hcost⟩ := boundOf_le_of_parse hbudget hparse
  obtain ⟨hevents, houtcome, hwon⟩ := tickAll_of_run hactive
  rw [hmachine] at hevents houtcome hwon
  rw [hcompleted] at houtcome hwon
  refine ⟨⟨hevents, ?_⟩, ⟨hcompleted, houtcome⟩, hwon.trans (and_iff_right rfl)⟩
  calc started.tickAll.1.length
      = run.events.length := congrArg List.length hevents
    _ ≤ boundOf commands := hlength
    _ = costOf commands := hbound
    _ ≤ l.budget := hcost

/-- After the run of an accepted program, the console tells of its events and of a victory. -/
theorem console_launch (hbudget : l.budget < counterLimit)
    (hparse : parse source l.budget = .ok commands) :
    let last := ((ofLevel l).fresh.launch commands).tickAll.2
    last.console = Event.lines [] ((ofLevel l).fresh.launch commands).tickAll.1 ++
      if last.phase = .won then ["Level complete!"] else [] := by
  intro last
  obtain ⟨active, hactive, -⟩ := l.machine_launch commands
  obtain ⟨-, ⟨-, houtcome⟩, -⟩ := tickAll_launch hbudget hparse
  -- no run is left whose end would have to be told, and the one there was has been completed
  have hparting : last.parting = if last.phase = .won then ["Level complete!"] else [] := by
    have hquiet : last.run? = none := run?_tickAll _
    have hlast : last.lastOutcome = some .completed := houtcome
    simp [parting, hquiet, hlast]
  rw [← hparting]
  exact console_tickAll hactive (World.recalls_reset _)

/-- The last line about a run that was completed. -/
def verdict (s : Session) : String :=
  if s.phase = .won then "Won!" else "Program finished without completing the level."

theorem playOn_of_error {e : ProgramError} (hparse : parse source l.budget = .error e) :
    playOn l source =
      .ofFailure ["Program rejected: " ++ e.message] (.refused (.program e)) := by
  have hplayable : (ofLevel l).Playable := ⟨nofun, nofun⟩
  rw [playOn, start_of_error hplayable hparse]
  rfl

theorem playOn_of_ok (hbudget : l.budget < counterLimit)
    (hparse : parse source l.budget = .ok commands) :
    let started := (ofLevel l).fresh.launch commands
    playOn l source =
      .ofLines (numbered 0 started.tickAll.1 ++ started.tickAll.2.console ++
        [verdict started.tickAll.2]) := by
  intro started
  have hplayable : (ofLevel l).Playable := ⟨nofun, nofun⟩
  obtain ⟨-, ⟨-, houtcome⟩, -⟩ := tickAll_launch hbudget hparse
  -- starting has said nothing, so nothing is printed before the steps and nothing is cleared
  have hquiet : started.console = [] := rfl
  have hclear : started.clear = started := rfl
  rw [playOn, start_of_ok hplayable hparse]
  dsimp only
  rw [hclear, traced_events, hquiet]
  dsimp only
  rw [houtcome]
  cases hphase : started.tickAll.2.phase <;> simp [verdict, hphase]

/-! ### Lines -/

theorem unlines_singleton (line : String) : unlines [line] = line ++ "\n" := by
  simp [unlines, String.join]

/-- A text that fits in a line. -/
def OneLine (s : String) : Prop := '\n' ∉ s.toList

@[simp] theorem oneLine_append {s t : String} : OneLine (s ++ t) ↔ OneLine s ∧ OneLine t := by
  simp [OneLine]

theorem oneLine_toString (n : Nat) : OneLine (toString n) := fun h =>
  absurd (isDigit_of_mem_toString h) (by decide)

theorem oneLine_toString_int (i : Int) : OneLine (toString i) := by
  cases i with
  | ofNat n => exact oneLine_toString n
  | negSucc n => exact oneLine_append.mpr ⟨by simp [OneLine], oneLine_toString (n + 1)⟩

theorem oneLine_padded (n : Nat) : OneLine (padded n) := by
  refine oneLine_append.mpr ⟨?_, oneLine_toString n⟩
  simp [OneLine, List.mem_replicate]

theorem oneLine_text (c : Cell) : OneLine c.text := by
  have hparts : OneLine ("(" ++ toString c.x ++ ", " ++ toString c.z ++ ")") := by
    simp only [oneLine_append, oneLine_toString_int, and_true]
    simp [OneLine]
  exact hparts

theorem oneLine_title (f : Facing) : OneLine f.title := by
  cases f <;> simp [OneLine, Facing.title]

theorem oneLine_report (e : Event) : OneLine e.report := by
  have habout : ∀ (lead : String) {rest : String}, OneLine lead → OneLine rest →
      OneLine (lead ++ rest) := fun lead _ hlead hrest => oneLine_append.mpr ⟨hlead, hrest⟩
  cases e with
  | moved source target burning =>
    have hmoved := habout "moved to " (by simp [OneLine]) (oneLine_text target)
    have hburning : OneLine " (on fire!)" := by simp [OneLine]
    cases burning with
    | true => exact habout _ hmoved hburning
    | false => exact hmoved
  | bumped stays wall => exact habout "bumped into " (by simp [OneLine]) (oneLine_text wall)
  | turned facing => exact habout "now facing " (by simp [OneLine]) (oneLine_title facing)
  | collected c =>
    exact habout "collected the crystal at " (by simp [OneLine]) (oneLine_text c)
  | collectMissed c => exact habout "nothing to collect at " (by simp [OneLine]) (oneLine_text c)
  | extinguished c => exact habout "put out the fire at " (by simp [OneLine]) (oneLine_text c)
  | extinguishMissed c => exact habout "no fire to put out at " (by simp [OneLine]) (oneLine_text c)
  | covered c => exact habout "covered the hole at " (by simp [OneLine]) (oneLine_text c)
  | coverMissed c => exact habout "nothing to cover at " (by simp [OneLine]) (oneLine_text c)

/-- What the console says of events is none of what is said of a run that was cancelled. -/
theorem plain_of_line? {e : Event} {earlier : List Event} {line : String}
    (h : e.line? earlier = some line) : OneLine line ∧ line ≠ "Cancelled." := by
  cases e with
  | collectMissed c =>
    obtain rfl := Option.some.inj h
    split <;> simp [OneLine]
  | collected c | extinguished c | extinguishMissed c | covered c | coverMissed c =>
    obtain rfl := Option.some.inj h
    simp [OneLine]
  | moved | bumped | turned => cases h

theorem plain_of_mem_lines {earlier : List Event} {line : String}
    (h : line ∈ Event.lines earlier events) : OneLine line ∧ line ≠ "Cancelled." := by
  induction events generalizing earlier with
  | nil => cases h
  | cons e events ih =>
    obtain hfirst | hlater := List.mem_append.mp h
    · exact plain_of_line? (Option.mem_toList.mp hfirst)
    · exact ih hlater

/-- A numbered line has a colon behind its number. -/
theorem plain_of_mem_numbered {before : Nat} {line : String} (h : line ∈ numbered before events) :
    OneLine line ∧ line ≠ "Cancelled." := by
  obtain ⟨i, hi, rfl⟩ := List.mem_mapIdx.mp h
  refine ⟨?_, fun heq => ?_⟩
  · simp only [oneLine_append, oneLine_padded, oneLine_report, true_and, and_true]
    simp [OneLine]
  · have hcolon : ':' ∈ (padded (before + i + 1) ++ ": " ++ events[i].report).toList := by
      simp
    rw [heq] at hcolon
    simp at hcolon

end CommandLine

open CommandLine Session

/-- The command line reports the run faithfully, with logging silenced, for every program and every
level that it can read, however levels are loaded from the texts of files. It succeeds just if the
program is accepted. Then the run is completed within the budget, and what is printed are its
events, one in each line, numbered from one; the lines of the console, which tell of the same events
and of a victory; and the verdict. It says nowhere that a run was cancelled, that it failed, or that
there was none. If the program is rejected, this is all that is printed. -/
theorem command_line_reports_run {read : String → Except ReadError String}
    {load : String → Except LevelError Level} {path source : String} {more : List String}
    {l : Level} (hsource : read path = .ok source) (hlevel : Selects read load more l) :
    let report := play read (path :: more) load
    (report.exitCode = 0 ↔ ∃ commands, parse source l.budget = .ok commands) ∧
      (∀ commands, parse source l.budget = .ok commands →
        let run := (l.machine commands).run
        let started := ((ofLevel l).start source).2
        let events := started.tickAll.1
        let last := started.tickAll.2
        let steps := events.mapIdx fun i e => padded (i + 1) ++ ": " ++ e.report
        let lines := steps ++ last.console ++
          [if last.phase = .won then "Won!" else "Program finished without completing the level."]
        report = { exitCode := 0, stdout := unlines lines, stderr := "" } ∧
          (events = run.events ∧ events.length ≤ l.budget ∧ run.outcome = .completed) ∧
          (last.phase = .won ↔ run.machine.world.Won) ∧
          last.console =
            Event.lines [] events ++ (if last.phase = .won then ["Level complete!"] else []) ∧
          ∀ line ∈ lines, OneLine line ∧ line ≠ "Cancelled.") ∧
      ∀ e, parse source l.budget = .error e →
        report =
          { exitCode := 1
            stdout := "Program rejected: " ++ e.message ++ "\n"
            stderr := "Error: " ++ e.message ++ "\n" } := by
  intro report
  have hreport : report = playOn l source := play_eq hsource hlevel
  have hok : ∀ commands, parse source l.budget = .ok commands → report.exitCode = 0 := by
    intro commands hparse
    rw [hreport, playOn_of_ok hlevel.payable hparse]
    rfl
  refine ⟨⟨fun hexit => ?success, fun ⟨commands, hparse⟩ => hok commands hparse⟩,
    fun commands hparse => ?accepted, fun e hparse => ?rejected⟩
  case success =>
    cases hparse : parse source l.budget with
    | ok commands => exact ⟨commands, rfl⟩
    | error e =>
      rw [hreport, playOn_of_error hparse] at hexit
      cases hexit
  case rejected =>
    rw [hreport, playOn_of_error hparse, Report.ofFailure, unlines_singleton]
    rfl
  case accepted =>
    intro run started events last steps lines
    have hplayable : (ofLevel l).Playable := ⟨nofun, nofun⟩
    have hstarted : started = (ofLevel l).fresh.launch commands :=
      congrArg Prod.snd (start_of_ok hplayable hparse)
    obtain ⟨hevents, ⟨hcompleted, -⟩, hwon⟩ := tickAll_launch hlevel.payable hparse
    have hconsole := console_launch hlevel.payable hparse
    have hsteps : numbered 0 events = steps := by
      simp only [steps, numbered, Nat.zero_add]
    rw [← hstarted] at hevents hwon hconsole
    refine ⟨?report, ⟨hevents.1, hevents.2, hcompleted⟩, hwon, hconsole, fun line hline => ?plain⟩
    case report =>
      rw [hreport, playOn_of_ok hlevel.payable hparse, ← hstarted, hsteps]
      rfl
    case plain =>
      rw [List.mem_append, List.mem_append, ← hsteps, hconsole, List.mem_append,
        List.mem_singleton] at hline
      obtain (hstep | hremark | hlast) | rfl := hline
      · exact plain_of_mem_numbered hstep
      · exact plain_of_mem_lines hremark
      · split at hlast
        · obtain rfl := List.mem_singleton.mp hlast
          simp [OneLine]
        · cases hlast
      · split <;> simp [OneLine]

/-- A program that wins on the level of a file, and one that the first level rejects. -/
theorem command_line_reports_run_from_files :
    let yard : Config :=
      { name := "Yard", gridSize := 3, budget := 4, start := ⟨⟨0, 0⟩, .east⟩, crystal := ⟨1, 0⟩
        hazards := [⟨⟨1, 0⟩, .fire⟩] }
    let l : Level := ⟨yard, by decide⟩
    let files : List (String × String) :=
      [("walk", "forward 1 extinguish collect"), ("hop", "jump"),
        ("yard", "name=\"Yard\"\ngrid_size=3\ninstruction_budget=4\nobjective=\x7bx=1,z=0\x7d\n" ++
          "actor=\x7bx=0,z=0,facing=\"east\"\x7d\nhazards=[\x7bx=1,z=0\x7d]")]
    let read (path : String) : Except ReadError String :=
      match files.lookup path with
      | some text => .ok text
      | none => .error .notFound
    read "walk" = .ok "forward 1 extinguish collect" ∧ Selects read Level.ofFile ["yard"] l ∧
      play read ["walk", "yard"] =
        { exitCode := 0
          stdout := unlines ["  1: moved to (1, 0) (on fire!)", "  2: put out the fire at (1, 0)",
            "  3: collected the crystal at (1, 0)", "Fire put out.", "Crystal collected.",
            "Level complete!", "Won!"]
          stderr := "" } ∧
      read "hop" = .ok "jump" ∧ Selects read Level.ofFile [] Level.phaseOne ∧
      play read ["hop"] =
        { exitCode := 1
          stdout := "Program rejected: line 1, column 1: I don't understand \x60jump\x60\n"
          stderr := "Error: line 1, column 1: I don't understand \x60jump\x60\n" } := by
  intro yard l files read
  have hwalk : read "walk" = .ok "forward 1 extinguish collect" := by rfl
  have hhop : read "hop" = .ok "jump" := by rfl
  have hyard : Selects read Level.ofFile ["yard"] l :=
    .file rfl (ofFile_eq_ok_iff.mpr (by decide +kernel)) (by decide)
  have hfirst : Selects read Level.ofFile [] Level.phaseOne := .first
  have hparse : parse "forward 1 extinguish collect" l.budget =
      .ok [.act (.move .forward 1), .act .extinguish, .act .collect] := by decide +kernel
  have hunread : parse "jump" Level.phaseOne.budget =
      .error (.unrecognized "jump" ⟨1, 1⟩) := by decide +kernel
  obtain ⟨-, haccepted, -⟩ := command_line_reports_run hwalk hyard
  obtain ⟨-, -, hrejected⟩ := command_line_reports_run hhop hfirst
  refine ⟨hwalk, hyard, (haccepted _ hparse).1.trans ?_, hhop, hfirst,
    (hrejected _ hunread).trans ?_⟩
  · decide +kernel
  · decide +kernel

end RobotPuzzle
