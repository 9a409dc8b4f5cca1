import CompileJournal.Disk.Errno
import CompileJournal.Journal.Fault
import CompileJournal.Number.Shortest
import CompileJournal.Words.Decode

/-!
# Failures

Every cause for which recording, replaying, exporting or launching fails, and its text.
-/

namespace CompileJournal

/-- Why an operation of the journal fails. -/
inductive Failure where
  /-- A path that leads to no file. -/
  | unresolved (path : Text)
  /-- A file without a recorded invocation. -/
  | unrecorded (file : Text)
  /-- A lock from outside that outlasted the waiting time of a store. -/
  | contention (timeout : Binary64) (path : Text)
  /-- Any other refusal of the database. -/
  | database (fault : DatabaseFault)
  /-- A refusal of the system, with the path it was about if there was one. -/
  | system (reason : Errno) (path : Option Text)
  /-- A path that holds the character with code 0. -/
  | nulInPath
  /-- A row whose flags are not a sequence of words. -/
  | undecodable (error : Words.DecodeError)
  /-- A command without a program. -/
  | emptyCommand
  /-- More nested directories than can be made at once. -/
  | tooDeep
  deriving DecidableEq, Repr

namespace Failure

/-- The text of a failure. -/
def message : Failure → Text
  | unresolved path => "File ".toList ++ path ++ " does not exist".toList
  | unrecorded file => "No recorded invocation for ".toList ++ file
  | contention timeout path =>
    "Timed out after ".toList ++ timeout.text ++ "s waiting for ".toList ++ path ++
      ": ".toList ++ DatabaseFault.locked.message
  | .database fault => fault.message
  | system reason path => reason.message path
  | nulInPath => "embedded null byte"
  | undecodable error => error.message
  | emptyCommand => "list index out of range"
  | tooDeep => "maximum recursion depth exceeded"

/-- Whether a run of the command line reports the failure as a line of its log.  The others end
the run without one. -/
def isReported : Failure → Bool
  | nulInPath | undecodable _ | emptyCommand | tooDeep => false
  | _ => true

end Failure

end CompileJournal
