import CompileJournal.Disk.Walk

/-!
# Real paths

The real form of a path is absolute and leads through no link.  It is found name by name, and a
link is replaced by the real form of its target, as long as the path written so far is short
enough to be looked up at all; a link behind a longer one stays as it is.

* `Route`: a path on the way to its real form;
* `Disk.realRoute`: the route at the end of the names.
-/

namespace CompileJournal

/-- A path on the way to its real form: the place it stands for, and how it is written. -/
structure Route where
  isAbsolute : Bool
  /-- The names it is written with, innermost first.  A relative path may start with `..`. -/
  written : List Name
  place : Place
  deriving DecidableEq, Repr

namespace Route

/-- The route at the root. -/
def root : Route := ⟨true, [], []⟩

/-- How many bytes a route takes as it is written. -/
def byteCount (r : Route) : Nat :=
  let long := Place.byteCount r.written
  if r.isAbsolute then long else long - 1

/-- The route to a name in the directory. -/
def down (r : Route) (name : Name) : Route :=
  { r with written := name :: r.written, place := name :: r.place }

/-- The route to the directory above. -/
def up (r : Route) : Route :=
  let above := ['.', '.']
  { r with
    place := r.place.tail
    written :=
      match r.isAbsolute, r.written with
      | true, names => names.tail
      | false, [] => [above]
      | false, name :: outer => if name = above then above :: name :: outer else outer }

end Route

namespace Disk

/-- The target of the link a route leads to, if there is one and it can be looked up. -/
def linkAt (d : Disk) (r : Route) : Option Text :=
  if maxPath < r.byteCount then none
  else match d.entryAt r.place with
    | some (.link target) => some target
    | _ => none

/-- Goes on from a route through the names.  A link hands over to `follow` with the names of its
target; the names after it come next. -/
def realSteps (d : Disk) (follow : Route → List Name → Route) : Route → List Name → Route
  | here, [] => here
  | here, name :: rest =>
    if name = [] ∨ name = ['.'] then realSteps d follow here rest
    else if name = ['.', '.'] then realSteps d follow here.up rest
    else match d.linkAt (here.down name) with
      | some target =>
        realSteps d follow
          (follow (if Path.isAbsolute target then .root else here) (Path.pieces target)) rest
      | none => realSteps d follow (here.down name) rest

/-- The route at the end of the names, with links inside links up to the given number. -/
def realRoute (d : Disk) : Nat → Route → List Name → Route
  | 0 => d.realSteps fun here _ => here
  | links + 1 => d.realSteps (realRoute d links)

end Disk

end CompileJournal
