import CompileJournal.Text.Quoted

/-!
# System errors

The reasons for which the system refuses to look up, open or run a file, with the number and
the wording under which they are reported.
-/

namespace CompileJournal

/-- A reason for which the system refuses a request. -/
inductive Errno where
  | notFound
  | argumentsTooLong
  | notExecutable
  | permissionDenied
  | exists
  | notDirectory
  | isDirectory
  | nameTooLong
  | tooManyLinks
  deriving DecidableEq, Repr

namespace Errno

/-- The number of a reason. -/
def number : Errno → Nat
  | notFound => 2
  | argumentsTooLong => 7
  | notExecutable => 8
  | permissionDenied => 13
  | .exists => 17
  | notDirectory => 20
  | isDirectory => 21
  | nameTooLong => 36
  | tooManyLinks => 40

/-- The wording of a reason. -/
def wording : Errno → Text
  | notFound => "No such file or directory"
  | argumentsTooLong => "Argument list too long"
  | notExecutable => "Exec format error"
  | permissionDenied => "Permission denied"
  | .exists => "File exists"
  | notDirectory => "Not a directory"
  | isDirectory => "Is a directory"
  | nameTooLong => "File name too long"
  | tooManyLinks => "Too many levels of symbolic links"

/-- The report of a refused request, with the path it was about if there was one. -/
def message (e : Errno) (path : Option Text) : Text :=
  "[Errno ".toList ++ Nat.toDigits 10 e.number ++ "] ".toList ++ e.wording ++
    match path with
    | none => []
    | some p => ": ".toList ++ Text.quoted p

end Errno

end CompileJournal
