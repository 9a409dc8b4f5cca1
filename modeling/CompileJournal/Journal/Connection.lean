import CompileJournal.Disk.Basic
import CompileJournal.Journal.Fault

/-!
# Connections and locks

A connection to a database remembers what it has read, and a later access believes it as long as
nothing shows that the file has changed.  So the answer to an access depends on three things:
the file, the locks that other programs hold, and what the connection remembers.

* `Memory`: what a connection remembers;
* `Memory.refresh`, `Memory.look`: what becomes of it when the file is looked at;
* `Lock`: a transaction that another program holds.
-/

namespace CompileJournal

/-! ## 1. What a connection remembers -/

/-- The three statements of a store. -/
inductive Query where
  | put
  | get
  | list
  deriving DecidableEq, Repr

/-- What a connection keeps of the file it read last. -/
inductive Page where
  | unread
  /-- The file was blank. -/
  | blank
  | image (i : Image)
  deriving DecidableEq, Repr

/-- What a connection remembers. -/
structure Memory where
  /-- The stamp of the image that was read last. -/
  stamp : Option Stamp := none
  page : Page := .unread
  /-- Which tables there were when they were last looked for. -/
  schema : Option Schema := none
  /-- The statements that were understood when the table was there. -/
  ready : List Query := []
  /-- Whether the changes go to a log file beside the database. -/
  isLogging : Bool := false
  deriving DecidableEq, Repr

namespace Memory

/-- The memory before a file with the given content is read: what was kept is dropped if the
content bears another stamp, or if there is a log file, which counts no changes. -/
def refresh (m : Memory) (c : Content) : Memory :=
  if !m.isLogging ∧ c.image?.map Image.stamp = m.stamp then m else { m with page := .unread }

/-- Reads a file with the given content, as far as it is not remembered.  A blank file has no
image. -/
def look (m : Memory) (c : Content) : Memory × Except DatabaseFault (Option Image) :=
  if c.isBlank then
    (if m.page = .unread then { m with page := .blank } else m, .ok none)
  else match m.page, c with
    | .image i, _ => (m, .ok (some i))
    | .blank, _ => (m, .error .notADatabase)
    | .unread, .text _ => ({ m with stamp := none }, .error .notADatabase)
    | .unread, .database i => ({ m with stamp := some i.stamp, page := .image i }, .ok (some i))

/-- The memory of someone who has just written an image. -/
def wrote (m : Memory) (i : Image) : Memory :=
  { m with stamp := some i.stamp, page := .image i, schema := some (Image.schema (some i)) }

/-- The memory in which a statement is understood. -/
def learn (m : Memory) (q : Query) : Memory :=
  if q ∈ m.ready then m else { m with ready := q :: m.ready }

/-- The memory in which a statement has to be understood again. -/
def forget (m : Memory) (q : Query) : Memory := { m with ready := m.ready.filter (· ≠ q) }

end Memory

/-- An open database file: its number, and the place it was opened at unless it is private. -/
structure Handle where
  file : FileNumber
  place : Option Place
  deriving DecidableEq, Repr

/-- An open database file and what is remembered of it. -/
structure Connection where
  handle : Handle
  memory : Memory := {}
  deriving DecidableEq, Repr

/-- The place beside a database whose name has the given ending. -/
def Handle.beside (h : Handle) (ending : Text) : Option Place :=
  match h.place with
  | some (name :: outer) => some ((name ++ ending) :: outer)
  | _ => none

/-- The place of the undo file, which a change makes and removes. -/
def Handle.undo (h : Handle) : Option Place := h.beside "-journal"

/-- The place of the log file, in which changes gather if it is there. -/
def Handle.log (h : Handle) : Option Place := h.beside "-wal"

/-- The place of the index of the log file. -/
def Handle.logIndex (h : Handle) : Option Place := h.beside "-shm"

/-! ## 2. Transactions of other programs -/

/-- The kinds of transaction another program can hold on a database. -/
inductive LockMode where
  | deferred
  | shared
  | immediate
  | exclusive
  deriving DecidableEq, Repr

/-- Whether a transaction of this kind is meant to change the database. -/
def LockMode.writes : LockMode → Bool
  | deferred | shared => false
  | immediate | exclusive => true

/-- A transaction held from outside. -/
structure Lock where
  /-- The path under which it can be ended; a later one under the same path takes that away. -/
  holder : Option Text
  handle : Handle
  mode : LockMode
  /-- Whether it has made the undo file. -/
  hasUndo : Bool := false
  /-- Whether it uses the log file. -/
  isLogging : Bool := false
  deriving DecidableEq, Repr

end CompileJournal
