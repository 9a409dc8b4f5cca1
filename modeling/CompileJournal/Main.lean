import CompileJournal.CommandLine.Run

/-!
# The program

Runs the command line on the world of the process: its arguments, and the variables that choose
the database.  What the run shows goes to the standard streams.
-/

namespace CompileJournal

/-- A world with nothing on its disk but the root, which is the current directory. -/
def emptyWorld (environment : List (Text × Text)) : World :=
  { disk := {}, cwd := ⟨[], 0⟩, environment := environment }

/-- The value of an environment variable, as an entry of an environment. -/
def readVariable (name : Text) : IO (List (Text × Text)) := do
  match ← IO.getEnv (String.ofList name) with
  | none => return []
  | some value => return [(name, value.toList)]

/-- The line on the error stream for what left a run. -/
def CommandLine.Escape.message : CommandLine.Escape → Text
  | flag e => e.message
  | failure e => e.message

/-- Shows a report and gives the exit status. -/
def showReport (r : CommandLine.Report) : IO UInt32 := do
  IO.print (String.ofList r.output)
  for e in r.events do
    IO.eprintln (String.ofList (e.level.name ++ [' '] ++ e.message))
  for line in r.complaint.toList ++ (r.escape.map (·.message)).toList do
    IO.eprintln (String.ofList line)
  for l in r.launch.toList do
    IO.println (String.ofList (Words.encode l.argv))
  return match r.exit with
    | some status => UInt32.ofNat status.toNat
    | none => if r.escape.isSome then 1 else 0

end CompileJournal

/-- Runs the command line. -/
def main (args : List String) : IO UInt32 := do
  let environment :=
    (← CompileJournal.readVariable CompileJournal.CommandLine.databaseVariable) ++
      (← CompileJournal.readVariable "HOME".toList)
  let r := CompileJournal.CommandLine.run (CompileJournal.emptyWorld environment)
    (args.map String.toList) none
  CompileJournal.showReport r.2
