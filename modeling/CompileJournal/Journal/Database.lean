import CompileJournal.World

/-!
# Opening a database

A database is a regular file.  It is found by a walk of its own: links are followed and `..` goes
to the directory above, but names that do not exist are passed over, a slash at the end means
nothing, and the path has a length limit far below that of the system.

* `Disk.databasePlace`: the walk;
* `World.connect`: a new connection to the file behind a database path, which is made empty if
  it is missing.
-/

namespace CompileJournal

/-- The most bytes the path of a database may have. -/
def maxDatabasePath : Nat := 504

/-- The length that the path of a database may not reach while it is made. -/
def databasePathRoom : Nat := 512

/-- The most links in the path of a database. -/
def maxDatabaseLinks : Nat := 201

namespace Disk

/-- Walks from `here` through the names of a database path up to the first link, which hands
over to `follow`. -/
def databaseSteps (d : Disk) (follow : Place → List Name → Option Place) :
    Place → List Name → Option Place
  | here, [] => some here
  | here, name :: rest =>
    if name = [] ∨ name = ['.'] then databaseSteps d follow here rest
    else if name = ['.', '.'] then databaseSteps d follow here.tail rest
    else if databasePathRoom ≤ Place.byteCount (name :: here) then none
    else match d.entryAt here with
      | none => databaseSteps d follow (name :: here) rest
      | some .directory =>
        if maxName < Text.byteCount name then none
        else match d.entryAt (name :: here) with
          | some (.link target) =>
            if target = [] then none
            else follow (if Path.isAbsolute target then [] else here)
              (Path.pieces target ++ rest)
          | _ => databaseSteps d follow (name :: here) rest
      | some _ => none

/-- The place a database path leads to, following at most the given number of links. -/
def databasePlace (d : Disk) : Nat → Place → List Name → Option Place
  | 0 => d.databaseSteps fun _ _ => none
  | links + 1 => d.databaseSteps (databasePlace d links)

end Disk

/-- Whether a database path stands for a new private database. -/
def isPrivateDatabase (path : Text) : Bool := path = [] || path = ":memory:".toList

namespace World

/-- The place a database path leads to. -/
def databasePlace? (w : World) (path : Text) : Option Place :=
  if Path.isAbsolute path then w.disk.databasePlace maxDatabaseLinks [] (Path.pieces path)
  else if w.cwd.lost = 0 then
    w.disk.databasePlace maxDatabaseLinks [] (w.cwd.place.reverse ++ Path.pieces path)
  else none

/-- Opens the file at a place as a database, made empty if it is missing. -/
def connectAt (w : World) (p : Place) : Except Failure (World × Connection) :=
  if maxDatabasePath < Place.byteCount p then .error (.database .cannotOpen)
  else match p with
    | [] => .error (.database .cannotOpen)
    | name :: outer =>
      if w.disk.entryAt outer ≠ some .directory ∨ Disk.maxName < Text.byteCount name then
        .error (.database .cannotOpen)
      else match w.disk.entryAt p with
        | none =>
          let n := w.disk.nextNumber
          .ok (w.withDisk ((w.disk.set p (.file n)).addContent (.text [])),
            { handle := ⟨n, some p⟩ })
        | some (.file n) => .ok (w, { handle := ⟨n, some p⟩ })
        | some .pipe => .error (.database .unwritable)
        | some _ => .error (.database .cannotOpen)

/-- Opens a database. -/
def connect (w : World) (path : Text) : Except Failure (World × Connection) :=
  if isPrivateDatabase path then
    .ok (w.withDisk (w.disk.addContent (.text [])), { handle := ⟨w.disk.nextNumber, none⟩ })
  else if Text.nul ∈ path then .error .nulInPath
  else match w.databasePlace? path with
    | none => .error (.database .cannotOpen)
    | some p => w.connectAt p

end World

end CompileJournal
