import CompileJournal.Text.Basic

/-!
# Database faults

Why a database refuses an access, and the wording under which that is reported.
-/

namespace CompileJournal

/-- Why a database refuses an access. -/
inductive DatabaseFault where
  /-- The file, or one of those beside it, cannot be opened or created. -/
  | cannotOpen
  /-- The file holds something else. -/
  | notADatabase
  /-- The journal's table is missing. -/
  | noTable
  /-- A transaction from outside is in the way. -/
  | locked
  /-- The file no longer lies where it was opened. -/
  | moved
  /-- The files beside the database cannot be read or removed. -/
  | unwritable
  /-- The store was closed. -/
  | closed
  deriving DecidableEq, Repr

/-- The text of a database fault. -/
def DatabaseFault.message : DatabaseFault → Text
  | cannotOpen => "unable to open database file"
  | notADatabase => "file is not a database"
  | noTable => "no such table: invocations"
  | locked => "database is locked"
  | moved => "attempt to write a readonly database"
  | unwritable => "disk I/O error"
  | closed => "Cannot operate on a closed database."

end CompileJournal
