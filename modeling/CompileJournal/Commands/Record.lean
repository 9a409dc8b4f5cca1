import CompileJournal.Commands.Outcome
import CompileJournal.Journal.Store

/-!
# Recording an invocation

One record per source file of an invocation, under the file's absolute path without links, in
the order in which the files were given.  The first file that cannot be recorded ends it; the
records before it stay.
-/

namespace CompileJournal

/-- What a compiler was asked to do, its source files aside. -/
structure Invocation where
  driver : Text
  flags : List Text
  workdir : Text
  deriving DecidableEq, Repr

/-- The record of an invocation for one file. -/
def Invocation.recordFor (i : Invocation) (file : Text) : Record :=
  ⟨file, i.driver, i.flags, i.workdir⟩

/-- Records an invocation for one source file. -/
def recordInput (w : World) (s : Store) (i : Invocation) (input : Text) : Outcome Text :=
  match w.resolve i.workdir input with
  | .error e => ⟨w, [], .error e⟩
  | .ok file =>
    match s.put w (i.recordFor file) with
    | (w, .error e) => ⟨w, [], .error e⟩
    | (w, .ok ()) => ⟨w, [.stored file, .recorded i.driver file], .ok file⟩

/-- Records an invocation for its source files and gives their absolute paths. -/
def record (s : Store) (i : Invocation) : World → List Text → Outcome (List Text)
  | w, [] => ⟨w, [], .ok []⟩
  | w, input :: rest =>
    match recordInput w s i input with
    | ⟨w, events, .error e⟩ => ⟨w, events, .error e⟩
    | ⟨w, events, .ok file⟩ =>
      let later := record s i w rest
      ⟨later.world, events ++ later.events, later.result.map (file :: ·)⟩

end CompileJournal
