import CompileJournal.Commands.Outcome
import CompileJournal.Journal.Store

/-!
# Replaying an invocation

The command that compiles a file again as it was recorded, with some parts replaced on request:
another compiler, another file, more arguments, or a program to run in front of the compiler,
which then becomes that program's first argument.
-/

namespace CompileJournal

/-- What a replay changes.  An empty text changes nothing. -/
structure Overrides where
  wrapper : Text := []
  driver : Text := []
  alternative : Text := []
  extra : List Text := []
  deriving DecidableEq, Repr

/-- A program to run with its arguments in a directory. -/
structure Command where
  program : Text
  arguments : List Text
  workdir : Text
  deriving DecidableEq, Repr

namespace Command

/-- The program and its arguments as one list. -/
def argv (c : Command) : List Text := c.program :: c.arguments

/-- The command as a line for the shell. -/
def line (c : Command) : Text := Words.encode c.argv

end Command

/-- A text, or another one in place of the empty text. -/
def orElse (t other : Text) : Text := if t = [] then other else t

/-- The command for a recorded invocation. -/
def Overrides.command (o : Overrides) (r : Record) : Command :=
  let driver := orElse o.driver r.driver
  let rest := r.flags ++ o.extra ++ [orElse o.alternative r.file]
  if o.wrapper = [] then ⟨driver, rest, r.workdir⟩
  else ⟨o.wrapper, driver :: rest, r.workdir⟩

/-- The command that compiles the file at `input`, seen from `cwd`, as it was recorded. -/
def replay (w : World) (s : Store) (cwd input : Text) (o : Overrides) : Outcome Command :=
  match w.resolve cwd input with
  | .error e => ⟨w, [], .error e⟩
  | .ok file =>
    match s.get w file with
    | (w, .error e) => ⟨w, [], .error e⟩
    | (w, .ok none) => ⟨w, [], .error (.unrecorded file)⟩
    | (w, .ok (some r)) =>
      ⟨w, [.found r.driver file], .ok (o.command { r with file := file })⟩

end CompileJournal
