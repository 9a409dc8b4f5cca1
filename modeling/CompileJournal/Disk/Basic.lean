import CompileJournal.Path
import CompileJournal.Disk.Errno
import CompileJournal.Journal.Image

/-!
# The disk

A disk maps places to entries.  A place is the list of names that leads to it from the root,
innermost first, so that the directory of a place is its tail.  A regular file is known by a
number under which its content is kept: a store that has opened a file keeps that file even
when the name it was opened by is removed.

* `Disk.entryAt`: what lies at a place; the root is always a directory;
* `Disk.set`, `Disk.remove`: the changes of one place;
* `Disk.contentOf`, `Disk.setContent`, `Disk.addContent`: the contents by file number.
-/

namespace CompileJournal

/-- The names from a place up to the root, innermost first. -/
abbrev Place := List Name

/-- The text of the absolute path to a place. -/
def Place.text (p : Place) : Text := Path.ofNames p.reverse

/-- A place behind its depth, so that places of two depths are told apart at once. -/
def Place.key (p : Place) : Nat × Place := (p.length, p)

/-- How many bytes the path to a place takes. -/
def Place.byteCount (p : Place) : Nat := p.foldr (fun name n => Text.byteCount name + 1 + n) 0

/-- The number of a regular file. -/
abbrev FileNumber := Nat

/-- What lies at a place. -/
inductive Entry where
  | directory
  | file (number : FileNumber)
  | link (target : Text)
  | pipe
  deriving DecidableEq, Repr

/-- What a regular file holds: plain text, or the image of a database. -/
inductive Content where
  | text (t : Text)
  | database (i : Image)
  deriving DecidableEq, Repr

namespace Content

/-- Whether a content has no bytes at all. -/
def isEmpty : Content → Bool
  | text t => t = []
  | database _ => false

/-- Whether a database can be started in a file with this content: a single byte counts as
nothing. -/
def isBlank : Content → Bool
  | text t => Text.byteCount t ≤ 1
  | database _ => false

/-- Whether the first byte of a content is zero. -/
def startsWithNul : Content → Bool
  | text t => t.head? = some Text.nul
  | database _ => false

/-- The image of a content, if it is a database. -/
def image? : Content → Option Image
  | text _ => none
  | database i => some i

end Content

/-- What the undo file of a running change holds: it starts with a zero byte until the change
reaches the database. -/
def Content.undo : Content := .text [Text.nul]

/-- The entries of a file system, each under the key of its place, and the contents of its
regular files. -/
structure Disk where
  entries : List ((Nat × Place) × Entry) := []
  contents : List Content := []
  deriving DecidableEq, Repr

namespace Disk

/-- What lies at a place. -/
def entryAt (d : Disk) : Place → Option Entry
  | [] => some .directory
  | p => d.entries.lookup p.key

/-- The disk with `e` at the place `p`. -/
def set (d : Disk) (p : Place) (e : Entry) : Disk :=
  { d with entries := (p.key, e) :: d.entries.filter (·.1 ≠ p.key) }

/-- The disk without `p` and everything below it. -/
def remove (d : Disk) (p : Place) : Disk :=
  { d with entries := d.entries.filter fun e => !p.isSuffixOf e.1.2 }

/-- The content of a regular file. -/
def contentOf (d : Disk) (n : FileNumber) : Content := d.contents[n]?.getD (.text [])

/-- The disk with another content of a regular file. -/
def setContent (d : Disk) (n : FileNumber) (c : Content) : Disk :=
  { d with contents := d.contents.set n c }

/-- The disk with a new regular file that no place leads to yet. -/
def addContent (d : Disk) (c : Content) : Disk := { d with contents := d.contents ++ [c] }

/-- The number that the next new regular file gets. -/
def nextNumber (d : Disk) : FileNumber := d.contents.length

end Disk

end CompileJournal
