import CompileJournal.Journal.Beside
import CompileJournal.Journal.Database

/-!
# Transactions

One access to a database from its beginning to its end.  Reading waits for nobody but a
transaction that closed the database off; a change also gives way to one that claims it, and can
only be kept while nobody else reads.  What does not come to its end changes nothing.

* `World.beginRead`, `World.beginWrite`: the beginnings, which give the image that is seen;
* `World.keep`: keeps a change.
-/

namespace CompileJournal

/-- What an access to a database leaves: the world, the connection with what it remembers now,
and a value or the fault that ended it. -/
structure Turn (α : Type) where
  world : World
  connection : Connection
  result : Except DatabaseFault α

namespace Connection

/-- The connection with another memory. -/
def remember (c : Connection) (m : Memory) : Connection := { c with memory := m }

end Connection

namespace World

/-- Looks at the database of a connection. -/
def look (w : World) (c : Connection) : Turn (Option Image) :=
  let seen := (c.memory.refresh (w.content c.handle)).look (w.content c.handle)
  ⟨w, c.remember seen.1, seen.2⟩

/-- Begins to read a database and gives the image that is seen; a blank file has none.  A
connection that has once used the log file asks nobody any more. -/
def beginRead (w : World) (c : Connection) : Turn (Option Image) :=
  if c.memory.isLogging then w.look c
  else if w.isClosedOff c.handle.file then ⟨w, c, .error .locked⟩
  else match w.settleUndo c.handle with
    | (w, .error f) => ⟨w, c, .error f⟩
    | (w, .ok ()) =>
      let m := c.memory.refresh (w.content c.handle)
      match w.settleLog c.handle with
      | (w, .error f) => ⟨w, c.remember m, .error f⟩
      | (w, .ok isLogging) => w.look (c.remember { m with isLogging := isLogging })

/-- Begins to change a database, or to close it off as well, and gives the image that is seen.
For a blank file the undo file is made at once. -/
def beginWrite (w : World) (c : Connection) (closesOff : Bool) : Turn (Option Image) :=
  match w.beginRead c with
  | ⟨w, c, .error f⟩ => ⟨w, c, .error f⟩
  | ⟨w, c, .ok seen⟩ =>
    let n := c.handle.file
    if c.memory.isLogging then
      ⟨w, c, if w.isLogClaimed n then .error .locked else .ok seen⟩
    else if w.isClaimed n || (closesOff && w.isShared n) then ⟨w, c, .error .locked⟩
    else if seen.isSome then ⟨w, c, .ok seen⟩
    else match w.openUndo c.handle with
      | (w, .error f) => ⟨w, c, .error f⟩
      | (w, .ok ()) => ⟨w, c, .ok seen⟩

/-- Gives up a change that was begun. -/
def giveUp (w : World) (c : Connection) (seen : Option Image) : World :=
  if seen.isNone && !c.memory.isLogging then w.dropUndo c.handle else w

/-- The world in which a database has another image. -/
def setImage (w : World) (h : Handle) (i : Image) : World :=
  w.withDisk (w.disk.setContent h.file (.database i))

/-- Keeps a change that was begun, which replaces the image that was seen by `i`. -/
def keep (w : World) (c : Connection) (seen : Option Image) (i : Image) : Turn Unit :=
  let kept := c.remember (c.memory.wrote i)
  if c.memory.isLogging then ⟨w.setImage c.handle i, kept, .ok ()⟩
  else match if seen.isSome then w.openUndo c.handle else (w, .ok ()) with
    | (w, .error f) => ⟨w, c, .error f⟩
    | (w, .ok ()) =>
      if w.isShared c.handle.file then ⟨w.dropUndo c.handle, c, .error .locked⟩
      else ⟨(w.setImage c.handle i).dropUndo c.handle, kept, .ok ()⟩

end World

end CompileJournal
