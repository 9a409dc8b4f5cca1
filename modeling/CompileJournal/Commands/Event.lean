import CompileJournal.Failure

/-!
# Events

What a run reports while it works: each kind of event has a level and a text, and a run's
verbosity decides which levels are shown.
-/

namespace CompileJournal

/-- How important an event is. -/
inductive Level where
  | debug
  | info
  | warning
  | error
  deriving DecidableEq, Repr

/-- The name of a level. -/
def Level.name : Level → Text
  | debug => "DEBUG"
  | info => "INFO"
  | warning => "WARNING"
  | error => "ERROR"

/-- The least verbosity at which a level is shown. -/
def Level.threshold : Level → Int
  | debug => 1
  | info => 0
  | warning => -1
  | error => -2

/-- What a run reports. -/
inductive Event where
  | stored (file : Text)
  | recorded (driver file : Text)
  | found (driver file : Text)
  | executing (argv : List Text) (directory : Text)
  | wrote (count : Nat) (path : Text)
  | failed (failure : Failure)
  | notExecuted (program : Text) (failure : Failure)
  deriving DecidableEq, Repr

namespace Event

/-- The level of an event. -/
def level : Event → Level
  | stored _ | found .. | executing .. => .debug
  | recorded .. | wrote .. => .info
  | failed _ | notExecuted .. => .error

/-- The text of an event. -/
def message : Event → Text
  | stored file => "Stored invocation for ".toList ++ file
  | recorded driver file =>
    "Recorded ".toList ++ driver ++ " invocation for ".toList ++ file
  | found driver file => "Found ".toList ++ driver ++ " invocation for ".toList ++ file
  | executing argv directory =>
    "Executing ".toList ++ Text.quotedList argv ++ " in ".toList ++ directory
  | wrote count path =>
    "Wrote ".toList ++ Nat.toDigits 10 count ++ " entries to ".toList ++ path
  | failed failure => failure.message
  | notExecuted program failure =>
    "Failed to execute ".toList ++ program ++ ": ".toList ++ failure.message

/-- Whether an event is shown at a verbosity. -/
def isShown (verbosity : Int) (e : Event) : Bool := e.level.threshold ≤ verbosity

end Event

end CompileJournal
