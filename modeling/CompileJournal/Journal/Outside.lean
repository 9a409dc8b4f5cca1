import CompileJournal.Journal.Query

/-!
# What other programs do

Another program opens a database, does one thing and closes it again, or it begins a transaction
and holds it.

* `World.visitRows`, `World.visitPut`, `World.visitDrop`: one look or one change;
* `World.lock`, `World.unlock`: a transaction that is held.
-/

namespace CompileJournal.World

/-- Opens a database, uses it once and closes it.  The file that opening has made stays. -/
def visit {α : Type} (w : World) (path : Text) (use : World → Connection → Turn α) :
    World × Except Failure α :=
  match w.connect path with
  | .error e => (w, .error e)
  | .ok (w, c) =>
    let t := use w c
    (t.world.releaseLog t.connection, t.result.mapError .database)

/-- The rows of a database as they are stored, or none if no such file exists. -/
def visitRows (w : World) (path : Text) : World × Except Failure (Option Table) :=
  if w.exists? path then
    let r := w.visit path fun w c => w.readRows c .list
    (r.1, r.2.map some)
  else (w, .ok none)

/-- Adds a row as it is given. -/
def visitPut (w : World) (path : Text) (r : Row) : World × Except Failure Unit :=
  w.visit path fun w c => w.putRow c r

/-- Removes the table. -/
def visitDrop (w : World) (path : Text) : World × Except Failure Unit :=
  w.visit path fun w c => w.dropTable c

/-- Begins a transaction of a kind. -/
def beginLock (w : World) (c : Connection) : LockMode → Turn (Option Image)
  | .deferred => ⟨w, c, .ok none⟩
  | .shared => w.beginRead c
  | .immediate => w.beginWrite c false
  | .exclusive => w.beginWrite c true

/-- The locks in which none can be ended under a path any more. -/
def withoutHolder (path : Text) (ls : List Lock) : List Lock :=
  ls.map fun l => if l.holder = some path then { l with holder := none } else l

/-- Begins a transaction from outside and holds it.  One that was begun under the same path
before can then no longer be ended. -/
def lock (w : World) (path : Text) (mode : LockMode) : World × Except Failure Unit :=
  match w.connect path with
  | .error e => (w, .error e)
  | .ok (w, c) =>
    match w.beginLock c mode with
    | ⟨w, c, .error f⟩ => (w.releaseLog c, .error (.database f))
    | ⟨w, c, .ok seen⟩ =>
      let l : Lock :=
        { holder := some path, handle := c.handle, mode := mode, isLogging := c.memory.isLogging,
          hasUndo := mode.writes && seen.isNone && !c.memory.isLogging }
      ({ w with locks := l :: withoutHolder path w.locks }, .ok ())

/-- Ends the transaction that can be ended under a path, and gives it up. -/
def unlock (w : World) (path : Text) : World :=
  match w.locks.find? (·.holder = some path) with
  | none => w
  | some l =>
    let w := { w with locks := w.locks.filter (·.holder ≠ some path) }
    let w := if l.hasUndo then w.dropUndo l.handle else w
    w.releaseLog { handle := l.handle, memory := { isLogging := l.isLogging } }

end CompileJournal.World
