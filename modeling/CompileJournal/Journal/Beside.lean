import CompileJournal.World

/-!
# The files beside a database

A change first makes an undo file beside the database and removes it when it is done, so one
that is found while nobody changes the database was left behind and has to be settled before the
database can be read.  If there is a log file, the changes go there instead and nobody waits for
readers any more.

* `World.settleUndo`, `World.settleLog`: what an access does about the two files;
* `World.openUndo`, `World.dropUndo`: the undo file of a change;
* `World.releaseLog`: what becomes of the log file when a connection is closed.
-/

namespace CompileJournal.World

/-! ## 1. Looking at a place -/

/-- What lies at a place now, with links followed that have come there since. -/
def followPlace (w : World) (p : Place) : Option Entry :=
  match w.disk.find [] p.reverse with
  | .error _ => none
  | .ok q => w.disk.entryAt q

/-- What lies at a place now, where a link as the last name counts as itself. -/
def lookPlace (w : World) : Place → Option Entry
  | [] => some .directory
  | name :: outer =>
    match w.disk.findLast [] outer.reverse name with
    | .error _ => none
    | .ok q => w.disk.entryAt q

/-- Whether there is more at a place than an empty file. -/
def isSolid (w : World) (p : Place) : Bool :=
  match w.followPlace p with
  | none => false
  | some (.file n) => !(w.disk.contentOf n).isEmpty
  | some _ => true

/-- The world without the file or link at a place.  Directories stay. -/
def unlink (w : World) : Place → World
  | [] => w
  | name :: outer =>
    match w.disk.findLast [] outer.reverse name with
    | .error _ => w
    | .ok q => if w.disk.entryAt q = some .directory then w else w.removeAt q

/-- The world with a file at a place, which keeps its number if there was one. -/
def putFile (w : World) (p : Place) (c : Content) : World :=
  match w.lookPlace p, p with
  | some (.file n), _ => w.withDisk (w.disk.setContent n c)
  | none, name :: outer =>
    match w.disk.findLast [] outer.reverse name with
    | .error _ => w
    | .ok q => w.withDisk ((w.disk.set q (.file w.disk.nextNumber)).addContent c)
  | _, _ => w

/-- The content of the file behind a handle. -/
def content (w : World) (h : Handle) : Content := w.disk.contentOf h.file

/-- Whether anything lies where a database was opened. -/
def hasName (w : World) (h : Handle) : Bool :=
  match h.place with
  | none => true
  | some p => (w.followPlace p).isSome

/-- Whether a database still lies where it was opened. -/
def isInPlace (w : World) (h : Handle) : Bool :=
  match h.place with
  | none => true
  | some p => w.followPlace p = some (.file h.file)

/-! ## 2. Locks -/

/-- Whether a transaction from outside keeps everybody else off a database. -/
def isClosedOff (w : World) (n : FileNumber) : Bool :=
  w.locks.any fun l => l.handle.file = n && l.mode = .exclusive && !l.isLogging

/-- Whether a transaction from outside is about to change a database itself. -/
def isClaimed (w : World) (n : FileNumber) : Bool :=
  w.locks.any fun l => l.handle.file = n && l.mode.writes && !l.isLogging

/-- Whether a transaction from outside is about to write to the log of a database. -/
def isLogClaimed (w : World) (n : FileNumber) : Bool :=
  w.locks.any fun l => l.handle.file = n && l.mode.writes && l.isLogging

/-- Whether a transaction from outside reads a database, or a connection keeps it open for its
log. -/
def isShared (w : World) (n : FileNumber) : Bool :=
  (w.locks.any fun l => l.handle.file = n && l.mode ≠ .deferred) ||
    w.connections.any fun c? => c?.any fun c => c.handle.file = n && c.memory.isLogging

/-! ## 3. The undo file -/

/-- Settles an undo file that was left behind.  Beside a blank database it is removed; otherwise
it is removed too unless it starts with a zero byte, for which nobody may be reading. -/
def settleUndo (w : World) (h : Handle) : World × Except DatabaseFault Unit :=
  match h.undo with
  | none => (w, .ok ())
  | some u =>
    if !w.isSolid u || w.isClaimed h.file then (w, .ok ())
    else if (w.content h).isBlank then (w.unlink u, .ok ())
    else if !w.hasName h then (w, .error .unwritable)
    else match w.lookPlace u with
      | some .directory => (w, .error .unwritable)
      | some (.link _) =>
        (w, .error (if w.isShared h.file then .locked else .cannotOpen))
      | some (.file n) =>
        if (w.disk.contentOf n).startsWithNul then (w, .ok ())
        else if w.isShared h.file then (w, .error .locked)
        else (w.unlink u, .ok ())
      | _ => (w, .ok ())

/-- Opens the undo file for a change.  A database that is not blank has to lie where it was
opened. -/
def openUndo (w : World) (h : Handle) : World × Except DatabaseFault Unit :=
  match h.undo with
  | none => (w, .ok ())
  | some u =>
    if !(w.content h).isBlank && !w.isInPlace h then (w, .error .moved)
    else if !w.hasName h then (w, .error .unwritable)
    else if Disk.maxName < Text.byteCount (u.headD []) then (w, .error .cannotOpen)
    else match w.lookPlace u with
      | some .directory | some (.link _) => (w, .error .cannotOpen)
      | _ => (w.putFile u .undo, .ok ())

/-- Removes the undo file of a change. -/
def dropUndo (w : World) (h : Handle) : World :=
  match h.undo with
  | none => w
  | some u => w.unlink u

/-! ## 4. The log file -/

/-- Finds out whether changes go to the log file.  Beside a blank database it is removed. -/
def settleLog (w : World) (h : Handle) : World × Except DatabaseFault Bool :=
  match h.log with
  | none => (w, .ok false)
  | some l =>
    if !w.isSolid l then (w, .ok false)
    else if (w.content h).isBlank then
      if w.lookPlace l = some .directory then (w, .error .unwritable)
      else (w.unlink l, .ok false)
    else if !w.hasName h then (w, .error .unwritable)
    else match w.lookPlace l, h.logIndex with
      | some (.file _), some index => (w.putFile index .undo, .ok true)
      | _, _ => (w, .error .cannotOpen)

/-- The log file goes with the last one who uses it. -/
def releaseLog (w : World) (c : Connection) : World :=
  if c.memory.isLogging && !w.isShared c.handle.file then
    match c.handle.log, c.handle.logIndex with
    | some l, some index => (w.unlink l).unlink index
    | _, _ => w
  else w

end CompileJournal.World
