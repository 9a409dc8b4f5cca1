import CompileJournal.Proofs.Arguments.Pairing
import CompileJournal.Proofs.CommandLine.Recall

/-!
# Recording a replay

The command that replays a file is a compile like any other, so it can be recorded itself.  It has
the flags of the recorded compile and, behind them, the file by the text of its place.  The row is
the same again if the file is told from the flags this time as well.  What can keep it from that is
a flag that waits for a value at the end of the compile, a real name without an extension, which a
link may have hidden, and a spelling that the table takes for a flag.

* `World.resolve_again`, `World.isFile_text`: what a path is resolved to is resolved to itself;
* `classify_replayed`: when the replayed command is split as the recorded one was.
-/

namespace CompileJournal

open CommandLine (HasShortPaths)

variable {w : World} {q : Place} {n : FileNumber}

/-! ## 1. The text of a file -/

namespace Path

theorem join_of_isAbsolute {p : Text} (h : isAbsolute p = true) (base : Text) :
    join base p = p := by
  rw [join, if_pos h]

/-- An absolute path is no flag. -/
theorem not_flag_of_isAbsolute {p : Text} (h : isAbsolute p = true) :
    Text.beginsWith p flagMark = false := by
  cases p with
  | nil => rfl
  | cons c p =>
    obtain rfl : c = '/' := by simpa [isAbsolute] using h
    rfl

end Path

namespace World

theorem find_file_text (hw : w.IsSound) (hshort : HasShortPaths w)
    (hq : w.disk.entryAt q = some (.file n)) (base : Text) :
    w.find (Path.join base q.text) = .ok ⟨q, 0⟩ := by
  rw [Path.join_of_isAbsolute (isAbsolute_text q)]
  exact find_text hw hq (by simp) (hshort hq)

/-- The text of a file leads to a file, from any directory. -/
theorem isFile_text (hw : w.IsSound) (hshort : HasShortPaths w)
    (hq : w.disk.entryAt q = some (.file n)) (base : Text) :
    w.isFile (Path.join base q.text) = true :=
  isFile_iff.mpr ⟨q, n, find_file_text hw hshort hq base, hq⟩

/-- What is resolved to the text of a file is resolved to it again. -/
theorem resolve_again (hw : w.IsSound) (hshort : HasShortPaths w)
    (hq : w.disk.entryAt q = some (.file n)) {base : Text} (hbase : Path.isAbsolute base = true) :
    w.resolve base q.text = .ok q.text :=
  resolve_text hshort.links hbase (find_file_text hw hshort hq base)

end World

/-! ## 2. The replayed command -/

/-- What it takes for a file to be told from the flags of a recorded compile again: no flag waits
for it, and its real name has an extension and is no flag itself. -/
structure IsToldAgain (table : ValueFlags) (arguments : List Text) (file : Text) : Prop where
  paired : Even (table.trailing arguments)
  extension : Path.hasExtension file = true
  notDetached : table.isDetached file = false

/-- The text of a file behind the flags of a compile is an input again if it is told from them. -/
theorem classify_flags_append (hw : w.IsSound) (hshort : HasShortPaths w)
    (hq : w.disk.entryAt q = some (.file n)) (table : ValueFlags) (workdir : Text)
    (arguments : List Text) :
    (IsToldAgain table arguments q.text →
      classify w table workdir ((classify w table workdir arguments).flags ++ [q.text]) =
        ⟨(classify w table workdir arguments).flags, [q.text]⟩) ∧
    (¬IsToldAgain table arguments q.text →
      classify w table workdir ((classify w table workdir arguments).flags ++ [q.text]) =
        ⟨(classify w table workdir arguments).flags ++ [q.text], []⟩) := by
  have hsource : w.isSource workdir q.text = Path.hasExtension q.text := by
    rw [World.isSource, World.isFile_text hw hshort hq workdir, Bool.and_true]
  have hflag := Path.not_flag_of_isAbsolute (isAbsolute_text q)
  have htold : table.endsOpen arguments = false ∧
      isInput table (w.isSource workdir) q.text = true ↔ IsToldAgain table arguments q.text := by
    rw [ValueFlags.endsOpen_eq_false_iff, isInput, hsource, hflag]
    constructor
    · rintro ⟨heven, hinput⟩
      obtain ⟨hdetached, hextension⟩ : table.isDetached q.text = false ∧
          Path.hasExtension q.text = true := by simpa using hinput
      exact ⟨heven, hextension, hdetached⟩
    · rintro ⟨heven, hextension, hdetached⟩
      exact ⟨heven, by simp [hextension, hdetached]⟩
  simp only [classify, classifyWith_flags_append]
  exact ⟨fun h => if_pos (htold.mpr h), fun h => if_neg (mt htold.mp h)⟩

/-- Recording the text of a file that an input leads to is recording the input. -/
theorem recordInput_again {workdir input file : Text}
    (hinput : w.resolve workdir input = .ok file) (hfile : w.resolve workdir file = .ok file)
    (s : Store) (driver : Text) (flags : List Text) :
    recordInput w s ⟨driver, flags, workdir⟩ file =
      recordInput w s ⟨driver, flags, workdir⟩ input := by
  rw [recordInput, recordInput, hinput, hfile]

/-- The root with a source file, and a link that lends an extension to a file without one. -/
def aliasWorld : World :=
  World.written [(["main.c"], .file 0), (["Makefile"], .file 1), (["alias.c"], .link "/Makefile")]
    [.text [], .text []]

theorem aliasWorld_isSound : aliasWorld.IsSound :=
  ⟨Disk.isTree_of_entries (by decide) (by decide), rfl⟩

/-- **A replay is recorded as the compile was, or its file is lost.**  Every input of a compile is
resolved, and without overrides its replay runs the compiler on the recorded flags and the resolved
path.  If the file is told from the flags again, recording this command is recording the input with
the flags it had; in every other case the file is taken for a flag. -/
theorem classify_replayed (hw : w.IsSound) (hshort : HasShortPaths w) {workdir : Text}
    (hworkdir : Path.isAbsolute workdir = true) (table : ValueFlags) {arguments : List Text}
    {parts : Classified} (hparts : classify w table workdir arguments = parts) {input : Text}
    (hinput : input ∈ parts.inputs) (driver : Text) :
    ∃ file, w.resolve workdir input = .ok file ∧
      ({} : Overrides).command ⟨file, driver, parts.flags, workdir⟩ =
        ⟨driver, parts.flags ++ [file], workdir⟩ ∧
      (∀ s, recordInput w s ⟨driver, parts.flags, workdir⟩ file =
        recordInput w s ⟨driver, parts.flags, workdir⟩ input) ∧
      (classify w table workdir (parts.flags ++ [file]) = ⟨parts.flags, [file]⟩ ↔
        IsToldAgain table arguments file) ∧
      (¬IsToldAgain table arguments file →
        classify w table workdir (parts.flags ++ [file]) = ⟨parts.flags ++ [file], []⟩) := by
  subst hparts
  obtain ⟨q, n, hfind, hq⟩ := find_of_mem_inputs hinput
  have hresolve := World.resolve_text hshort.links hworkdir hfind
  have hagain := World.resolve_again hw hshort hq hworkdir
  obtain ⟨htold, hlost⟩ := classify_flags_append hw hshort hq table workdir arguments
  refine ⟨q.text, hresolve, ?_, fun s => recordInput_again hresolve hagain s driver _,
    ⟨fun h => ?_, htold⟩, hlost⟩
  · rw [Overrides.command, if_pos rfl]
    simp [orElse]
  · by_contra hnot
    have hempty := congrArg Classified.inputs ((hlost hnot).symm.trans h)
    exact absurd hempty (by simp)

/-- A pair of detached spellings keeps the file apart, a single one takes it, and so does a real
name without an extension. -/
theorem classify_replayed_aliasWorld :
    (classify aliasWorld .standard "/" ["main.c", "-o", "-o"] = ⟨["-o", "-o"], ["main.c"]⟩ ∧
      classify aliasWorld .standard "/" ["-o", "-o", "/main.c"] = ⟨["-o", "-o"], ["/main.c"]⟩) ∧
    (classify aliasWorld .standard "/" ["main.c", "-o"] = ⟨["-o"], ["main.c"]⟩ ∧
      classify aliasWorld .standard "/" ["-o", "/main.c"] = ⟨["-o", "/main.c"], []⟩) ∧
    (classify aliasWorld .standard "/" ["alias.c"] = ⟨[], ["alias.c"]⟩ ∧
      classify aliasWorld .standard "/" ["/Makefile"] = ⟨["/Makefile"], []⟩) := by
  have hshort : HasShortPaths aliasWorld := CommandLine.hasShortPaths_of_entries (by decide)
  have hmain : aliasWorld.resolve "/" "main.c" = .ok "/main.c".toList := by decide
  have halias : aliasWorld.resolve "/" "alias.c" = .ok "/Makefile".toList := by decide
  have hpair : classify aliasWorld .standard "/" ["main.c", "-o", "-o"] =
      ⟨["-o", "-o"], ["main.c"]⟩ := by
    decide
  have hsingle : classify aliasWorld .standard "/" ["main.c", "-o"] = ⟨["-o"], ["main.c"]⟩ := by
    decide
  have hlink : classify aliasWorld .standard "/" ["alias.c"] = ⟨[], ["alias.c"]⟩ := by
    decide
  refine ⟨⟨hpair, ?_⟩, ⟨hsingle, ?_⟩, ⟨hlink, ?_⟩⟩
  · obtain ⟨file, hfile, -, -, htold, -⟩ := classify_replayed aliasWorld_isSound hshort rfl
      .standard hpair List.mem_cons_self "cc"
    obtain rfl := Except.ok.inj (hfile.symm.trans hmain)
    exact htold.mpr ⟨by decide, by decide, by decide⟩
  · obtain ⟨file, hfile, -, -, -, hlost⟩ := classify_replayed aliasWorld_isSound hshort rfl
      .standard hsingle List.mem_cons_self "cc"
    obtain rfl := Except.ok.inj (hfile.symm.trans hmain)
    exact hlost fun h => absurd h.paired (by decide)
  · obtain ⟨file, hfile, -, -, -, hlost⟩ := classify_replayed aliasWorld_isSound hshort rfl
      .standard hlink List.mem_cons_self "cc"
    obtain rfl := Except.ok.inj (hfile.symm.trans halias)
    exact hlost fun h => absurd h.extension (by decide)

end CompileJournal
