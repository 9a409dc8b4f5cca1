import CompileJournal.CommandLine.Run
import CompileJournal.Journal.Outside

/-!
# Sessions

A session is a world together with the stores that are open in it, each under a name.  Every
operation leaves a session and an answer; one that fails leaves what it had changed before, and
the session goes on.
-/

namespace CompileJournal

/-- A world and the stores open in it. -/
structure Session where
  world : World
  stores : List (Text × Store) := []
  deriving DecidableEq, Repr

/-- Why an operation of a session fails. -/
inductive SessionError where
  /-- No store was opened under the name. -/
  | noStore (name : Text)
  | failure (e : Failure)
  deriving DecidableEq, Repr

namespace Session

/-- An answer of a session. -/
abbrev Answer (α : Type) := Except SessionError α

/-- The store of a name. -/
def store? (s : Session) (name : Text) : Option Store := s.stores.lookup name

/-- The session in which a name stands for another store. -/
def setStore (s : Session) (name : Text) (store : Store) : Session :=
  { s with stores := (name, store) :: s.stores.filter (·.1 ≠ name) }

/-- The session with another world. -/
def withWorld (s : Session) (w : World) : Session := { s with world := w }

/-- The answer of an operation that ended with a value or a failure. -/
def answer {α : Type} : Except Failure α → Answer α
  | .ok a => .ok a
  | .error e => .error (.failure e)

/-- An operation on the world. -/
def onWorld {α : Type} (s : Session) (f : World → World × Except Failure α) :
    Session × Answer α :=
  let r := f s.world
  (s.withWorld r.1, answer r.2)

/-- An operation on the store of a name. -/
def onStore {α : Type} (s : Session) (name : Text)
    (f : World → Store → World × Except Failure α) : Session × Answer α :=
  match s.store? name with
  | none => (s, .error (.noStore name))
  | some store => s.onWorld fun w => f w store

/-- Opens a store under a name.  If it cannot be opened, the name keeps what it had. -/
def openStore (s : Session) (name path : Text) (timeout : Binary64) : Session × Answer Unit :=
  match Store.openAt s.world path timeout with
  | (w, .ok store) => ((s.withWorld w).setStore name store, .ok ())
  | (w, .error e) => (s.withWorld w, .error (.failure e))

/-- Closes the store of a name, which stays known as closed. -/
def closeStore (s : Session) (name : Text) : Session × Answer Unit :=
  match s.store? name with
  | none => (s, .error (.noStore name))
  | some store => (s.withWorld (store.close s.world), .ok ())

/-- Records an invocation for one file. -/
def put (s : Session) (name : Text) (r : Record) : Session × Answer Unit :=
  s.onStore name fun w store => store.put w r

/-- The recorded invocation of a file. -/
def get (s : Session) (name file : Text) : Session × Answer (Option Record) :=
  s.onStore name fun w store => store.get w file

/-- All recorded invocations. -/
def records (s : Session) (name : Text) : Session × Answer (List Record) :=
  s.onStore name fun w store => store.records w

/-- Records an invocation for its source files. -/
def record (s : Session) (name : Text) (i : Invocation) (inputs : List Text) :
    Session × Answer (List Text) :=
  s.onStore name fun w store =>
    let o := CompileJournal.record store i w inputs
    (o.world, o.result)

/-- The command that compiles a file as it was recorded. -/
def replay (s : Session) (name cwd input : Text) (o : Overrides) : Session × Answer Command :=
  s.onStore name fun w store =>
    let r := CompileJournal.replay w store cwd input o
    (r.world, r.result)

/-- The entries of all records. -/
def entries (s : Session) (name : Text) : Session × Answer (List CompileEntry) :=
  s.onStore name fun w store => CompileJournal.entries w store

/-- Writes the entries of all records to a path; gives their number and the text of the file. -/
def exportTo (s : Session) (name path : Text) : Session × Answer (Nat × Text) :=
  s.onStore name fun w store =>
    let o := CompileJournal.exportTo w store path
    (o.world, match o.result with
      | .error e => .error e
      | .ok count => (o.world.readText path).map fun t => (count, t))

end Session

end CompileJournal
