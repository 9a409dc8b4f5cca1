import CompileJournal.Disk.Basic

/-!
# Looking up a path

A path is looked up name by name.  Every name but the last must lead to a directory, `..` goes
to the directory that really holds the current one, and a symbolic link is replaced by its
target, at most `maxLinks` times in one lookup.

* `Disk.walk`: the walk, which ends at a place where something lies, or at a place in an
  existing directory where nothing does;
* `Disk.steps`: the walk up to the first link, which `Disk.walk` repeats.
-/

namespace CompileJournal.Disk

/-- The most bytes a name may have. -/
def maxName : Nat := 255

/-- The most bytes a path may have. -/
def maxPath : Nat := 4095

/-- The most symbolic links one lookup follows. -/
def maxLinks : Nat := 40

/-- What a path is looked up for: something that is there, or a file to be made if it is
missing. -/
inductive Purpose where
  | find
  | create
  deriving DecidableEq

/-- Where a walk ends. -/
inductive Landing where
  /-- Something lies at the place. -/
  | present (p : Place)
  /-- Nothing lies at the place, but its directory is there. -/
  | absent (p : Place)
  deriving DecidableEq, Repr

/-- The place of a landing. -/
def Landing.place : Landing → Place
  | present p => p
  | absent p => p

/-- Walks from `here` through the names.  A link hands over to `follow`, with the directory in
which its target starts and all names that are left. -/
def steps (d : Disk) (purpose : Purpose)
    (follow : Place → List Name → Except Errno Landing) :
    Place → List Name → Except Errno Landing
  | here, [] => .ok (.present here)
  | here, name :: rest =>
    if d.entryAt here ≠ some .directory then .error .notDirectory
    else if name = [] ∨ name = ['.'] then steps d purpose follow here rest
    else if name = ['.', '.'] then steps d purpose follow here.tail rest
    else if purpose = .create ∧ rest = [[]] then .error .isDirectory
    else if maxName < Text.byteCount name then .error .nameTooLong
    else match d.entryAt (name :: here) with
      | some (.link target) =>
        if target = [] then .error .notFound
        else follow (if Path.isAbsolute target then [] else here) (Path.names target ++ rest)
      | some _ => steps d purpose follow (name :: here) rest
      | none => if rest = [] then .ok (.absent (name :: here)) else .error .notFound

/-- Walks from a place through the names, following at most the given number of links. -/
def walk (d : Disk) (purpose : Purpose) : Nat → Place → List Name → Except Errno Landing
  | 0 => d.steps purpose fun _ _ => .error .tooManyLinks
  | links + 1 => d.steps purpose (walk d purpose links)

/-- The place the names lead to from `here`, if something lies there. -/
def find (d : Disk) (here : Place) (names : List Name) : Except Errno Place :=
  match d.walk .find maxLinks here names with
  | .error e => .error e
  | .ok (.present p) => .ok p
  | .ok (.absent _) => .error .notFound

/-- The directory of the last name and that name, where the names end in one that can name an
entry. -/
def splitLast (names : List Name) : Option (List Name × Name) :=
  match names.getLast? with
  | none => none
  | some last =>
    if last = [] ∨ last = ['.'] ∨ last = ['.', '.'] then none else some (names.dropLast, last)

/-- The place of the last name without following it if it is a link, whether or not something
lies there. -/
def findLast (d : Disk) (here : Place) (names : List Name) (last : Name) : Except Errno Place :=
  match d.find here names with
  | .error e => .error e
  | .ok p =>
    if d.entryAt p ≠ some .directory then .error .notDirectory
    else if maxName < Text.byteCount last then .error .nameTooLong
    else .ok (last :: p)

end CompileJournal.Disk
