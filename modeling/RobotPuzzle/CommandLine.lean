import RobotPuzzle.Level.File
import RobotPuzzle.Session.Drive

/-!
# The command line

The command line plays a program file, on the first level of the game or on that of a level file,
and reports every step, the lines of the console and how the run ended.

## Main definitions

* `CommandLine.Report` — what is printed, and the exit code
* `CommandLine.Failure`, `CommandLine.Failure.text` — what keeps a program from being played
* `CommandLine.traced` — what is printed of each step
* `CommandLine.play` — the report for some arguments
-/

namespace RobotPuzzle.CommandLine

/-- What is printed, and the exit code. Logging is silenced: nothing is logged to `stderr`, which
has only the error of a program that was not played to its end. -/
structure Report where
  exitCode : Nat
  stdout : String
  stderr : String
  deriving DecidableEq, Repr

/-- Why a file cannot be read. -/
inductive ReadError | notFound | isDirectory | notText
  deriving DecidableEq, Repr

/-- The reason in the system's words. -/
def ReadError.message : ReadError → String
  | notFound => "No such file or directory (os error 2)"
  | isDirectory => "Is a directory (os error 21)"
  | notText => "stream did not contain valid UTF-8"

/-- A level file's error in one line. -/
def levelMessage : LevelError → String
  | .file e => "invalid level file: " ++ e.message?.getD "not a TOML document"
  | .config e => e.message

/-- What keeps a program from being played to its end. -/
inductive Failure
  | usage
  | reading (path : String) (cause : ReadError)
  | loading (path : String) (cause : LevelError)
  | refused (cause : SessionError)
  | faulted (cause : Fault)
  | neverStarted
  deriving DecidableEq, Repr

/-- The failure and, if it has one, its cause. -/
def Failure.parts : Failure → String × Option String
  | usage => ("Usage: gridbot <program> [level.toml]", none)
  | reading path cause => ("reading " ++ path, some cause.message)
  | loading path cause => ("loading level " ++ path, some (levelMessage cause))
  | refused cause => (cause.message, none)
  | faulted cause => ("run failed: " ++ cause.message, none)
  | neverStarted => ("program never started", none)

/-- The failure as it is printed, with its cause in a paragraph of its own. -/
def Failure.text (f : Failure) : String :=
  match f.parts with
  | (top, none) => "Error: " ++ top ++ "\n"
  | (top, some cause) => "Error: " ++ top ++ "\n\nCaused by:\n    " ++ cause ++ "\n"

/-- Lines, each with a line end. -/
def unlines (lines : List String) : String := String.join (lines.map (· ++ "\n"))

/-- The report of a failure after some lines. -/
def Report.ofFailure (lines : List String) (f : Failure) : Report :=
  { exitCode := 1, stdout := unlines lines, stderr := f.text }

/-- The report of a program played to its end. -/
def Report.ofLines (lines : List String) : Report :=
  { exitCode := 0, stdout := unlines lines, stderr := "" }

/-- A number with blanks before it up to three places. -/
def padded (n : Nat) : String :=
  let digits := toString n
  String.ofList (List.replicate (3 - digits.length) ' ') ++ digits

/-- What is printed of the steps of a run, and how many there were so far. -/
structure Trace where
  steps : Nat := 0
  lines : Array String := #[]

/-- Prints an event in a line of its own under its number. -/
def traced (e : Event) : StateM Trace Unit :=
  modify fun t =>
    { steps := t.steps + 1, lines := t.lines.push (padded (t.steps + 1) ++ ": " ++ e.report) }

/-- The program and the level to be played, given what reading a file and loading a level from its
text give. The program is read before the level. -/
def prepare (read : String → Except ReadError String) (load : String → Except LevelError Level)
    (args : List String) : Except Failure (String × Level) :=
  match args with
  | [] => .error .usage
  | path :: more =>
    match read path with
    | .error e => .error (.reading path e)
    | .ok source =>
      match more with
      | [] => .ok (source, Level.phaseOne)
      | levelPath :: _ =>
        match read levelPath with
        | .error e => .error (.reading levelPath e)
        | .ok text =>
          match load text with
          | .error e => .error (.loading levelPath e)
          | .ok level => .ok (source, level)

/-- Plays a program on a level. What the console says about starting it is printed at once; what it
says about the run follows the steps. -/
def playOn (level : Level) (source : String) : Report :=
  let (started, s) := (Session.ofLevel level).start source
  match started with
  | .error e => .ofFailure s.console (.refused e)
  | .ok () =>
    let before := s.console
    let ((outcome?, s), trace) := (s.clear.runPaced traced).run {}
    let lines := before ++ trace.lines.toList ++ s.console
    match outcome? with
    | some .completed =>
      .ofLines (lines ++ [match s.phase with
        | .won => "Won!"
        | _ => "Program finished without completing the level."])
    | some .cancelled => .ofLines (lines ++ ["Cancelled."])
    | some (.failed fault) => .ofFailure lines (.faulted fault)
    | none => .ofFailure lines .neverStarted

/-- The report for some arguments, given what reading a file gives and, where this is not the loader
of level files, what loading a level from its text gives. -/
def play (read : String → Except ReadError String) (args : List String)
    (load : String → Except LevelError Level := Level.ofFile) : Report :=
  match prepare read load args with
  | .error f => .ofFailure [] f
  | .ok (source, level) => playOn level source

end RobotPuzzle.CommandLine
