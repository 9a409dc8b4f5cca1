import CompileJournal.Arguments.Classify
import CompileJournal.CommandLine.Settings
import CompileJournal.CommandLine.Split
import CompileJournal.Commands.Export
import CompileJournal.Commands.Launch
import CompileJournal.Commands.Replay

/-!
# A run of the command line

A run reads its flags, opens the journal and does one of three things: it exports the journal,
it replays a recorded invocation, or it records the compile command it was given.  The last two
end with a command, which is printed, launched, or both.

* `CommandLine.prepare`: the work on the journal, which ends with a command to launch, an export
  or a complaint about the way the program was called;
* `CommandLine.finish`: printing and launching a command;
* `CommandLine.run`: a whole run.
-/

namespace CompileJournal.CommandLine

/-- The environment variable that names the database. -/
def databaseVariable : Text := "COMPILE_REPLAY_DB"

/-- The place of the database inside the home directory. -/
def databaseInHome : Text := ".compile_replay/invocations.db"

/-- The database of a run that names none. -/
def defaultDatabase (environment : List (Text × Text)) (home : Text) : Text :=
  orElse ((environment.lookup databaseVariable).getD []) (Path.join home databaseInHome)

/-- The home directory. -/
def homeDirectory (w : World) : Text :=
  match w.lookupVariable "HOME" with
  | none => "/root"
  | some home => Path.withoutTrailingSlashes home

/-- What leaves a run as an error of its own, without a line of the log. -/
inductive Escape where
  | flag (e : FlagError)
  | failure (e : Failure)
  deriving DecidableEq, Repr

/-- What a run shows. -/
structure Report where
  /-- The exit status, unless another command took over or an error escaped. -/
  exit : Option Int := none
  output : Text := []
  events : List Event := []
  /-- What is wrong with the way the program was called. -/
  complaint : Option Text := none
  escape : Option Escape := none
  launch : Option Launch := none
  deriving DecidableEq, Repr

/-- What the work on the journal ends with. -/
inductive Prepared where
  | launch (c : Command)
  | exported
  | complaint (text : Text)
  deriving DecidableEq, Repr

/-! ## 1. The three modes -/

/-- The compiler and its arguments: a driver that was set gets all tokens. -/
def compileCommand? (driver : Text) : List Text → Option (Text × List Text)
  | tokens =>
    if driver ≠ [] then some (driver, tokens)
    else match tokens with
      | [] => none
      | first :: rest => some (first, rest)

/-- Records the compile command. -/
def prepareRecord (w : World) (s : Store) (settings : Settings) (cwd : Text)
    (tokens : List Text) : Outcome Prepared :=
  match compileCommand? settings.driver tokens with
  | none => ⟨w, [], .ok (.complaint "No compiler driver given.")⟩
  | some (driver, arguments) =>
    let c := classify w (ValueFlags.withExtra settings.valueFlags) cwd arguments
    let o := record s ⟨driver, c.flags, cwd⟩ w c.inputs
    ⟨o.world, o.events, o.result.map fun _ => .launch ⟨driver, arguments, cwd⟩⟩

/-- Finds the command that was recorded for a file. -/
def prepareReplay (w : World) (s : Store) (settings : Settings) (cwd : Text) :
    List Text → Outcome Prepared
  | [] => ⟨w, [], .ok (.complaint "No input file given to replay.")⟩
  | input :: extra =>
    let o : Overrides := ⟨settings.wrapper, settings.driver, settings.alternative, extra⟩
    let r := replay w s cwd input o
    ⟨r.world, r.events, r.result.map .launch⟩

/-- Does the work of a run on an open journal. -/
def prepare (w : World) (s : Store) (settings : Settings) (cwd : Text) (tokens : List Text) :
    Outcome Prepared :=
  if settings.exportPath ≠ [] then
    let o := exportTo w s settings.exportPath
    ⟨o.world, o.events, o.result.map fun _ => .exported⟩
  else if settings.replay then prepareReplay w s settings cwd tokens
  else prepareRecord w s settings cwd tokens

/-! ## 2. The end of a run -/

/-- The report of a run that a failure ended. -/
def failed (events : List Event) (e : Failure) : Report :=
  if e.isReported then { exit := some 1, events := events ++ [.failed e] }
  else { events := events, escape := some (.failure e) }

/-- Prints a command if that was asked for, and launches it unless the run is a dry one. -/
def finish (w : World) (settings : Settings) (events : List Event) (refusal : Option Errno)
    (c : Command) : Report :=
  let output := if settings.verbose ∨ settings.dryRun then c.line ++ ['\n'] else []
  if settings.dryRun then { exit := some 0, output := output, events := events }
  else
    let h := replaceProcess w c.argv c.workdir refusal
    match h.result with
    | .ok status =>
      { exit := status, output := output, events := events ++ h.events, launch := h.launch }
    | .error e =>
      match e with
      | .system .. =>
        { exit := some 1, output := output, launch := h.launch,
          events := events ++ h.events ++ [.notExecuted c.program e] }
      | _ =>
        { output := output, events := events ++ h.events, launch := h.launch,
          escape := some (.failure e) }

/-- The report on the work of a run. -/
def conclude (settings : Settings) (refusal : Option Errno) (o : Outcome Prepared) : Report :=
  match o.result with
  | .error e => failed o.events e
  | .ok .exported => { exit := some 0, events := o.events }
  | .ok (.complaint text) => { exit := some 1, events := o.events, complaint := some text }
  | .ok (.launch c) => finish o.world settings o.events refusal c

/-- A run whose flags have been read. -/
def perform (w : World) (settings : Settings) (tokens : List Text) (refusal : Option Errno) :
    World × Report :=
  match w.currentDirectory with
  | .error e => (w, { escape := some (.failure e) })
  | .ok cwd =>
    let path := orElse settings.database (defaultDatabase w.environment (homeDirectory w))
    match Store.openAt w path settings.timeout with
    | (w, .error e) => (w, failed [] e)
    | (w, .ok s) =>
      let o := prepare w s settings cwd tokens
      let o := { o with world := s.close o.world }
      (o.world, conclude settings refusal o)

/-- The report with the events that a verbosity shows. -/
def Report.shown (verbosity : Int) (r : Report) : Report :=
  { r with events := r.events.filter (Event.isShown verbosity) }

/-- A whole run.  `refusal` is what the system answers to the launch of a command. -/
def run (w : World) (tokens : List Text) (refusal : Option Errno) : World × Report :=
  let parts := split tokens
  match Settings.read parts.own with
  | .error (.refused e) => (w, { escape := some (.flag e) })
  | .error .checked =>
    (w, { exit := some 0, output := "SUCCESS: All Abseil flags are valid.\n" })
  | .error .explained => (w, { exit := some 1 })
  | .ok settings =>
    if settings.onlyCheckArguments then (w, { exit := some 0 })
    else
      let r := perform w settings parts.command refusal
      (r.1, r.2.shown settings.shownVerbosity)

end CompileJournal.CommandLine
