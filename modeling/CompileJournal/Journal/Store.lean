import CompileJournal.Journal.Query

/-!
# Stores

A store is an open journal: it keeps one invocation per source file, the last one recorded.
Opening makes the missing directories above the database and the table if it is missing; every
other operation is one transaction and changes nothing when it fails.

* `Store.openAt`, `Store.close`;
* `Store.put`, `Store.get`, `Store.records`.
-/

namespace CompileJournal

/-- A store, which is open as long as the world has its connection. -/
structure Store where
  path : Text
  timeout : Binary64
  /-- The number of its connection. -/
  connection : Nat
  deriving DecidableEq, Repr

namespace Store

/-- The failure of a store's transaction: a lock from outside is reported with the waiting time
and the path of the store. -/
def failure (s : Store) : DatabaseFault → Failure
  | .locked => .contention s.timeout s.path
  | fault => .database fault

/-- The connection of a store that is open. -/
def connection? (w : World) (s : Store) : Option Connection := (w.connections[s.connection]?).join

/-- The world in which a store has another connection, or none. -/
def setConnection (w : World) (s : Store) (c : Option Connection) : World :=
  { w with connections := w.connections.set s.connection c }

/-- Uses the connection of a store. -/
def use {α : Type} (w : World) (s : Store) (f : World → Connection → Turn α) :
    World × Except Failure α :=
  match s.connection? w with
  | none => (w, .error (.database .closed))
  | some c =>
    let t := f w c
    (s.setConnection t.world (some t.connection), t.result.mapError s.failure)

/-- The absolute form of a path that is made by its text alone. -/
def lexicalPath (w : World) (path : Text) : Except Failure Path.Lexical :=
  if Path.isAbsolute path then .ok (Path.lexical path)
  else match w.currentDirectory with
    | .error e => .error e
    | .ok here => .ok (Path.lexical (Path.join here path))

/-- Opens the store at a path.  The directories and the file that were made before a failure
stay. -/
def openAt (w : World) (path : Text) (timeout : Binary64) : World × Except Failure Store :=
  match lexicalPath w path with
  | .error e => (w, .error e)
  | .ok l =>
    match w.makeDirectories l.parent.doubled l.parent.inner with
    | (w, .error e) => (w, .error e)
    | (w, .ok ()) =>
      match w.connect path with
      | .error e => (w, .error e)
      | .ok (w, c) =>
        let s : Store := ⟨path, timeout, w.connections.length⟩
        let r := s.use { w with connections := w.connections ++ [some c] } World.makeTable
        (r.1, r.2.map fun _ => s)

/-- Closes a store.  Closing a closed one is allowed. -/
def close (w : World) (s : Store) : World :=
  match s.connection? w with
  | none => w
  | some c => (s.setConnection w none).releaseLog c

/-- Records the invocation of a file in place of an earlier one. -/
def put (w : World) (s : Store) (r : Record) : World × Except Failure Unit :=
  s.use w fun w c => w.putRow c (Row.ofRecord r)

/-- The recorded invocation of a file. -/
def get (w : World) (s : Store) (file : Text) : World × Except Failure (Option Record) :=
  match s.use w fun w c => w.readRows c .get with
  | (w, .error e) => (w, .error e)
  | (w, .ok table) =>
    match table.get? file with
    | none => (w, .ok none)
    | some row => (w, (row.record.mapError .undecodable).map some)

/-- All recorded invocations in the order of their files. -/
def records (w : World) (s : Store) : World × Except Failure (List Record) :=
  match s.use w fun w c => w.readRows c .list with
  | (w, .error e) => (w, .error e)
  | (w, .ok table) => (w, table.records.mapError .undecodable)

end Store

end CompileJournal
