import CompileJournal.Journal.Table

/-!
# Database images

What a database file holds once it has been written: the journal's table, if it is there, and
two counters.  The first one counts the changes, except those of rows that went through a log
file; the second one counts those that made or removed the table.

* `Image.stamp`: what tells two images apart for someone who has read one of them before;
* `Image.schema`: what someone knows who has read which tables there are.
-/

namespace CompileJournal

/-- The state of a database file that has been written. -/
structure Image where
  changes : Nat
  revision : Nat
  table : Option Table
  deriving DecidableEq, Repr

/-- The part of an image by which a reader recognises it. -/
structure Stamp where
  changes : Nat
  hasTable : Bool
  deriving DecidableEq, Repr

/-- What is known of a database whose list of tables was read. -/
structure Schema where
  revision : Nat
  hasTable : Bool
  deriving DecidableEq, Repr

namespace Image

/-- The stamp of an image. -/
def stamp (i : Image) : Stamp := ⟨i.changes, i.table.isSome⟩

/-- The schema of an image, where a file without any image counts as one without the table. -/
def schema : Option Image → Schema
  | none => ⟨0, false⟩
  | some i => ⟨i.revision, i.table.isSome⟩

/-- The image with other rows, as a change that is counted or not. -/
def withRows (i : Image) (isCounted : Bool) (rows : Table) : Image :=
  { i with changes := if isCounted then i.changes + 1 else i.changes, table := some rows }

/-- The image after one more change, which makes or removes the table. -/
def withTable (i : Option Image) (table : Option Table) : Image :=
  match i with
  | none => ⟨1, 1, table⟩
  | some i => ⟨i.changes + 1, i.revision + 1, table⟩

end Image

end CompileJournal
