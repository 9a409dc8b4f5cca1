import CompileJournal.Words.Encode
import CompileJournal.Words.Decode

/-!
# The table of recorded invocations

One row per source file, in increasing order of the file's path.  A row keeps the flags as one
line of shell words; a record has them read back.

* `Table.get?`: the row of a file;
* `Table.put`: the table with a row added, in place of an earlier one of the same file.
-/

namespace CompileJournal

/-- A row as it is stored. -/
structure Row where
  file : Text
  driver : Text
  line : Text
  workdir : Text
  deriving DecidableEq, Repr

/-- An invocation as it is read back: the compiler, its flags and the working directory. -/
structure Record where
  file : Text
  driver : Text
  flags : List Text
  workdir : Text
  deriving DecidableEq, Repr

namespace Row

/-- The row that stores a record. -/
def ofRecord (r : Record) : Row := ⟨r.file, r.driver, Words.encode r.flags, r.workdir⟩

/-- The record a row stores, if its line is a sequence of words. -/
def record (r : Row) : Except Words.DecodeError Record :=
  (Words.decode r.line).map fun flags => ⟨r.file, r.driver, flags, r.workdir⟩

end Row

/-- The rows of the journal, in strictly increasing order of the file. -/
abbrev Table := List Row

namespace Table

/-- The row of a file. -/
def get? (t : Table) (file : Text) : Option Row := t.find? (·.file = file)

/-- The table with the row `r`, in place of an earlier row of the same file. -/
def put (r : Row) : Table → Table
  | [] => [r]
  | s :: rest =>
    if r.file < s.file then r :: s :: rest
    else if r.file = s.file then r :: rest
    else s :: put r rest

/-- The records of all rows in order, or the error of the first row that has none. -/
def records (t : Table) : Except Words.DecodeError (List Record) := t.mapM Row.record

end Table

end CompileJournal
