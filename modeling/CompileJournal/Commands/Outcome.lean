import CompileJournal.Commands.Event
import CompileJournal.World

/-!
# Outcomes

How a command on the journal ends.  The world it leaves is there in any case, since what was done
before a failure stays done.
-/

namespace CompileJournal

/-- A world that was left behind, what was reported, and a value or the failure that ended it. -/
structure Outcome (α : Type) where
  world : World
  events : List Event
  result : Except Failure α

end CompileJournal
