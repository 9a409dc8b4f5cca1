import CompileJournal.Commands.Event
import CompileJournal.World

/-!
# Launching a command

A command takes the place of the running process: the directory is changed first, then the
system is asked to run the program.  Where a process cannot be replaced, the command runs as a
child in the given directory and its exit status becomes that of the run.
-/

namespace CompileJournal

/-- What the system was asked to run. -/
structure Launch where
  argv : List Text
  /-- The directory the command starts in, if one is known. -/
  directory : Option Text
  deriving DecidableEq, Repr

/-- How launching ended: what was reported, what the system was asked to run if it came to
that, and the exit status of a child or a failure. -/
structure Handover where
  events : List Event
  launch : Option Launch
  result : Except Failure (Option Int)

/-- The directory a report names for a command: the given one, or the current one where none is
given. -/
def reportedDirectory (w : World) (directory : Text) : Except Failure Text :=
  if directory = [] then w.currentDirectory else .ok directory

/-- Changes to a directory, where an empty text stands for staying. -/
def enter (w : World) (directory : Text) : Except Failure World :=
  if directory = [] then .ok w else w.changeDirectory directory

/-- The answer of the system to a request: it runs the command, or refuses for a reason. -/
def answer (refusal : Option Errno) (status : Option Int) : Except Failure (Option Int) :=
  match refusal with
  | none => .ok status
  | some e => .error (.system e none)

/-- Puts a command in the place of the process.  Its directory must still have a path. -/
def replaceProcess (w : World) (argv : List Text) (directory : Text) (refusal : Option Errno) :
    Handover :=
  match reportedDirectory w directory with
  | .error e => ⟨[], none, .error e⟩
  | .ok shown =>
    let events := [.executing argv shown]
    match enter w directory with
    | .error e => ⟨events, none, .error e⟩
    | .ok w =>
      if argv = [] then ⟨events, none, .error .emptyCommand⟩
      else match w.currentDirectory with
        | .error e => ⟨events, none, .error e⟩
        | .ok here => ⟨events, some ⟨argv, some here⟩, answer refusal none⟩

/-- Runs a command as a child that ends with the given status. -/
def runChild (w : World) (argv : List Text) (directory : Option Text) (refusal : Option Errno)
    (status : Int) : Handover :=
  match reportedDirectory w (directory.getD []) with
  | .error e => ⟨[], none, .error e⟩
  | .ok shown =>
    ⟨[.executing argv shown], some ⟨argv, directory⟩, answer refusal (some status)⟩

end CompileJournal
