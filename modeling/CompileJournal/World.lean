import CompileJournal.Disk.Real
import CompileJournal.Failure
import CompileJournal.Journal.Connection

/-!
# The world a command runs in

A world is a disk, a current directory, an environment, the open connections to databases and
the transactions that other programs hold on databases.  Paths are given as text and are
relative to the current directory.

* `World.find`, `World.exists?`, `World.isFile`: what a path leads to;
* `World.resolve`: the absolute path without links that a path leads to;
* `World.makeDirectories`, `World.openForWriting`: the changes a command makes;
* `World.makeEntry`, `World.removeEntry`: the changes of a single place.
-/

namespace CompileJournal

/-- What a lookup ends at: a place, or a directory that was removed while it was the current one
and lay the given number of directories below the place. -/
structure Spot where
  place : Place
  lost : Nat := 0
  deriving DecidableEq, Repr

namespace Spot

/-- The names that are left after climbing out of directories that were removed, which hold
nothing any more. -/
def climb : Spot → List Name → Except Errno (Spot × List Name)
  | s, [] => .ok (s, [])
  | s, name :: rest =>
    if s.lost = 0 then .ok (s, name :: rest)
    else if name = [] ∨ name = ['.'] then climb s rest
    else if name = ['.', '.'] then climb { s with lost := s.lost - 1 } rest
    else .error .notFound

/-- The spot after the removal of what lies at `p` and below. -/
def afterRemoval (s : Spot) (p : Place) : Spot :=
  if p ≠ [] ∧ p.isSuffixOf s.place then ⟨p.tail, s.lost + (s.place.length - p.tail.length)⟩ else s

end Spot

/-- What a command finds when it starts. -/
structure World where
  disk : Disk
  cwd : Spot
  environment : List (Text × Text) := []
  /-- The connections by number; a closed one is gone. -/
  connections : List (Option Connection) := []
  locks : List Lock := []
  deriving DecidableEq, Repr

namespace World

/-! ## 1. Looking up -/

/-- Where the lookup of a path starts, and the names it goes through from there. -/
def start (w : World) (path : Text) : Except Errno (Spot × List Name) :=
  if path = [] ∨ Text.nul ∈ path then .error .notFound
  else if Disk.maxPath < Text.byteCount path then .error .nameTooLong
  else if Path.isAbsolute path then .ok (⟨[], 0⟩, Path.names path)
  else w.cwd.climb (Path.names path)

/-- Looks up names from a spot. -/
def findFrom (w : World) (s : Spot) (names : List Name) : Except Errno Spot :=
  if s.lost = 0 then (w.disk.find s.place names).map fun p => ⟨p, 0⟩ else .ok s

/-- What a path leads to, with all links followed. -/
def find (w : World) (path : Text) : Except Errno Spot :=
  match w.start path with
  | .error e => .error e
  | .ok (s, names) => w.findFrom s names

/-- What a path leads to, except that a link at its end is not followed. -/
def findEntry (w : World) (path : Text) : Except Errno Spot :=
  match w.start path with
  | .error e => .error e
  | .ok (s, names) =>
    match Disk.splitLast names with
    | none => w.findFrom s names
    | some (names, last) =>
      match w.disk.findLast s.place names last with
      | .error e => .error e
      | .ok p => if w.disk.entryAt p = none then .error .notFound else .ok ⟨p, 0⟩

/-- What lies at a spot. -/
def entryAt (w : World) (s : Spot) : Option Entry :=
  if s.lost = 0 then w.disk.entryAt s.place else some .directory

/-- What lies where a path leads to, with all links followed. -/
def entry? (w : World) (path : Text) : Option Entry :=
  match w.find path with
  | .error _ => none
  | .ok s => w.entryAt s

/-- Whether a path leads to anything. -/
def exists? (w : World) (path : Text) : Bool := (w.find path).toBool

/-- Whether a path leads to a directory. -/
def isDirectory (w : World) (path : Text) : Bool := w.entry? path = some .directory

/-- Whether a path leads to a regular file. -/
def isFile (w : World) (path : Text) : Bool :=
  match w.entry? path with
  | some (.file _) => true
  | _ => false

/-- The path of the current directory. -/
def currentDirectory (w : World) : Except Failure Text :=
  if w.cwd.lost = 0 then .ok (Place.text w.cwd.place) else .error (.system .notFound none)

/-- The real form of a path. -/
def realPath (w : World) (path : Text) : Except Failure Text :=
  let go (r : Route) : Text :=
    Place.text (w.disk.realRoute Disk.maxLinks r (Path.pieces path)).place
  if Path.isAbsolute path then .ok (go .root)
  else w.currentDirectory.map fun _ => go ⟨false, [], w.cwd.place⟩

/-- The absolute path without links to what `path`, seen from `base`, leads to. -/
def resolve (w : World) (base path : Text) : Except Failure Text :=
  if w.exists? (Path.join base path) then w.realPath (Path.join base path)
  else .error (.unresolved path)

/-- Whether `path`, seen from `base`, can be a source file: it has an extension and leads to a
regular file. -/
def isSource (w : World) (base path : Text) : Bool :=
  Path.hasExtension path && w.isFile (Path.join base path)

/-- The world with the current directory that a path leads to. -/
def changeDirectory (w : World) (path : Text) : Except Failure World :=
  if Text.nul ∈ path then .error .nulInPath
  else match w.find path with
    | .error e => .error (.system e (some path))
    | .ok s =>
      if w.entryAt s = some .directory then .ok { w with cwd := s }
      else .error (.system .notDirectory (some path))

/-- The value of an environment variable. -/
def lookupVariable (w : World) (name : Text) : Option Text := w.environment.lookup name

/-! ## 2. Changing -/

/-- The world with another disk. -/
def withDisk (w : World) (d : Disk) : World := { w with disk := d }

/-- The world with a new entry at a path where nothing lies yet, and its place. -/
def makeEntryAt (w : World) (path : Text) (entry : Entry) : Except Failure (World × Place) :=
  if Text.nul ∈ path then .error .nulInPath
  else match w.start path with
    | .error e => .error (.system e (some path))
    | .ok (s, names) =>
      match Disk.splitLast (names.filter (· ≠ [])) with
      | none => .error (.system .exists (some path))
      | some (names, last) =>
        match w.disk.findLast s.place names last with
        | .error e => .error (.system e (some path))
        | .ok p =>
          if w.disk.entryAt p = none then .ok (w.withDisk (w.disk.set p entry), p)
          else .error (.system .exists (some path))

/-- The world with a new entry at a path where nothing lies yet. -/
def makeEntry (w : World) (path : Text) (entry : Entry) : Except Failure World :=
  (w.makeEntryAt path entry).map (·.1)

/-- Makes a directory, and leaves alone one that is there.  A new one has a place. -/
def ensureDirectory (w : World) (path : Text) : World × Except Failure (Option Place) :=
  match w.makeEntryAt path .directory with
  | .ok (w', p) => (w', .ok (some p))
  | .error (.system e p) =>
    if w.isDirectory path then (w, .ok none) else (w, .error (.system e p))
  | .error e => (w, .error e)

/-- Makes a directory inside the one at `p`, which has just been made. -/
def ensureInside (w : World) (p : Place) (name : Name) (path : Text) :
    World × Except Failure (Option Place) :=
  if Text.nul ∈ path then (w, .error .nulInPath)
  else if Disk.maxPath < Text.byteCount path ∨ Disk.maxName < Text.byteCount name then
    (w, .error (.system .nameTooLong (some path)))
  else (w.withDisk (w.disk.set (name :: p) .directory), .ok (some (name :: p)))

/-- Makes the directory at a lexical path, and before it the missing ones above, from the
outermost one on.  Those made before a failure stay. -/
def makeMissing (doubled : Bool) : List Name → World → World × Except Failure (Option Place)
  | [], w => w.ensureDirectory (Path.Lexical.text ⟨doubled, []⟩)
  | name :: outer, w =>
    let path := Path.Lexical.text ⟨doubled, name :: outer⟩
    if w.exists? (Path.Lexical.text ⟨doubled, outer⟩) then w.ensureDirectory path
    else match makeMissing doubled outer w with
      | (w, .ok (some p)) => w.ensureInside p name path
      | (w, .ok none) => w.ensureDirectory path
      | (w, .error (.system .exists _)) => w.ensureDirectory path
      | (w, .error e) => (w, .error e)

/-- How many directories of a lexical path come after the innermost one that is there, and at
least one. -/
def missingDepth (w : World) (doubled : Bool) : List Name → Nat
  | [] => 1
  | _ :: outer =>
    if w.exists? (Path.Lexical.text ⟨doubled, outer⟩) then 1
    else missingDepth w doubled outer + 1

/-- The most directories that are made one inside the other at once. -/
def maxMissingDepth : Nat := 990

/-- Makes the directory at a lexical path and the missing ones above it. -/
def makeDirectories (doubled : Bool) (inner : List Name) (w : World) :
    World × Except Failure Unit :=
  if maxMissingDepth < w.missingDepth doubled inner then (w, .error .tooDeep)
  else
    let r := makeMissing doubled inner w
    (r.1, r.2.map fun _ => ())

/-- The regular file to write at a path, made empty if it is missing.  A link at the end of the
path is followed, also one that leads to nothing yet.  There is no number for a pipe. -/
def openForWriting (w : World) (path : Text) : Except Failure (World × Option FileNumber) :=
  if Text.nul ∈ path then .error .nulInPath
  else match w.start path with
    | .error e => .error (.system e (some path))
    | .ok (s, names) =>
      if s.lost ≠ 0 then .error (.system .isDirectory (some path))
      else match w.disk.walk .create Disk.maxLinks s.place names with
        | .error e => .error (.system e (some path))
        | .ok (.absent p) =>
          let n := w.disk.nextNumber
          .ok (w.withDisk ((w.disk.set p (.file n)).addContent (.text [])), some n)
        | .ok (.present p) =>
          match w.disk.entryAt p with
          | some (.file n) => .ok (w, some n)
          | some .pipe => .ok (w, none)
          | _ => .error (.system .isDirectory (some path))

/-- The world in which the file at a path holds exactly the text `t`. -/
def writeText (w : World) (path t : Text) : Except Failure World :=
  match w.openForWriting path with
  | .error e => .error e
  | .ok (w, none) => .ok w
  | .ok (w, some n) => .ok (w.withDisk (w.disk.setContent n (.text t)))

/-- The text of the file at a path.  A database has none that could be shown. -/
def readText (w : World) (path : Text) : Except Failure Text :=
  if Text.nul ∈ path then .error .nulInPath
  else match w.find path with
    | .error e => .error (.system e (some path))
    | .ok s =>
      match w.entryAt s with
      | some (.file n) =>
        match w.disk.contentOf n with
        | .text t => .ok t
        | .database _ => .ok []
      | some .pipe => .ok []
      | _ => .error (.system .isDirectory (some path))

/-- The world without the entry at a place and all that lies below it. -/
def removeAt (w : World) (p : Place) : World :=
  { w with disk := w.disk.remove p, cwd := w.cwd.afterRemoval p }

/-- The world without the entry at a path and all that lies below it. -/
def removeEntry (w : World) (path : Text) : World :=
  match w.findEntry path with
  | .error _ => w
  | .ok s => if s.lost = 0 then w.removeAt s.place else w

end World

end CompileJournal
