import CompileJournal.Arguments.ValueFlags
import CompileJournal.World

/-!
# Flags and inputs

The arguments of a compiler are split into the flags, with their values, and the source files it
is asked to compile.  A token is a source file only if it is no flag, is not the value of one,
and leads to an existing regular file with an extension.  Both parts keep the order that their
tokens had.
-/

namespace CompileJournal

/-- The arguments of a compiler in two parts. -/
structure Classified where
  flags : List Text
  inputs : List Text
  deriving DecidableEq, Repr

namespace Classified

/-- With one more flag in front. -/
def addFlag (token : Text) (c : Classified) : Classified := { c with flags := token :: c.flags }

/-- With one more input in front. -/
def addInput (token : Text) (c : Classified) : Classified :=
  { c with inputs := token :: c.inputs }

end Classified

/-- What a compiler flag starts with. -/
def flagMark : Text := ['-']

/-- Splits arguments, where `isSource` tells which bare tokens are source files. -/
def classifyWith (table : ValueFlags) (isSource : Text → Bool) : List Text → Classified
  | [] => ⟨[], []⟩
  | token :: rest =>
    if table.isDetached token then
      match rest with
      | [] => ⟨[token], []⟩
      | value :: rest => ((classifyWith table isSource rest).addFlag value).addFlag token
    else if Text.beginsWith token flagMark then (classifyWith table isSource rest).addFlag token
    else if isSource token then (classifyWith table isSource rest).addInput token
    else (classifyWith table isSource rest).addFlag token

/-- Splits the arguments of a compiler that runs in the directory `workdir`. -/
def classify (w : World) (table : ValueFlags) (workdir : Text) (arguments : List Text) :
    Classified :=
  classifyWith table (w.isSource workdir) arguments

end CompileJournal
