import CompileJournal.Text.Basic

/-!
# Paths as text

What can be said of a path without looking at any file: joining a path to the directory it is
relative to, whether its last component has an extension, the names it is made of, and the
absolute form in which `.` and `..` are removed by the text alone.
-/

namespace CompileJournal

/-- The name of an entry in a directory. -/
abbrev Name := Text

namespace Path

/-- Whether a path starts at the root. -/
def isAbsolute (p : Text) : Bool := p.head? = some '/'

/-- The path `p` seen from the directory `base`. -/
def join (base p : Text) : Text :=
  if isAbsolute p then p
  else if base = [] ∨ base.getLast? = some '/' then base ++ p
  else base ++ '/' :: p

/-- The pieces of a text between its slashes, empty ones included. -/
def pieces : Text → List Text
  | [] => [[]]
  | c :: rest =>
    if c = '/' then [] :: pieces rest
    else match pieces rest with
      | [] => [[c]]
      | piece :: more => (c :: piece) :: more

/-- The last piece of a path. -/
def fileName (p : Text) : Name := (pieces p).getLast?.getD []

/-- Whether the last piece of a path holds a point after its leading points: `main.c`, `a.` and
`.a.c` have an extension, `Makefile`, `.c` and `...` have none. -/
def hasExtension (p : Text) : Bool := ((fileName p).dropWhile (· = '.')).contains '.'

/-- The names a path leads through.  A slash after the last name is kept as an empty name, since
it demands that the name is a directory. -/
def names (p : Text) : List Name :=
  let named := (pieces p).filter (· ≠ [])
  if p.getLast? = some '/' ∧ named ≠ [] then named ++ [[]] else named

/-- The text of an absolute path through the given names, outermost first. -/
def ofNames (ns : List Name) : Text :=
  if ns = [] then ['/'] else ns.flatMap ('/' :: ·)

/-- An absolute path without `.`, `..` and empty names, innermost name first.  A path may start
with exactly two slashes, which are kept. -/
structure Lexical where
  doubled : Bool
  inner : List Name
  deriving DecidableEq, Repr

namespace Lexical

/-- The text of a lexical path. -/
def text (l : Lexical) : Text :=
  (if l.doubled then ['/', '/'] else ['/']) ++ Text.joinWith ['/'] l.inner.reverse

/-- The directory a lexical path lies in; the root lies in itself. -/
def parent (l : Lexical) : Lexical := { l with inner := l.inner.tail }

end Lexical

/-- One more name, seen by the text alone. -/
def climb (inner : List Name) (name : Name) : List Name :=
  if name = [] ∨ name = ['.'] then inner
  else if name = ['.', '.'] then inner.tail
  else name :: inner

/-- Whether a path starts with exactly two slashes. -/
def startsDoubled (p : Text) : Bool :=
  Text.beginsWith p ['/', '/'] && !Text.beginsWith p ['/', '/', '/']

/-- The lexical form of an absolute path. -/
def lexical (p : Text) : Lexical := ⟨startsDoubled p, (pieces p).foldl climb []⟩

/-- A path without the slashes at its end, or the root if nothing else is left. -/
def withoutTrailingSlashes (p : Text) : Text :=
  let kept := (p.reverse.dropWhile (· = '/')).reverse
  if kept = [] then ['/'] else kept

end Path

end CompileJournal
