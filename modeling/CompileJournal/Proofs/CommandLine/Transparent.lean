import CompileJournal.Proofs.CommandLine.OwnFlags
import CompileJournal.Proofs.CommandLine.RecordRun
import CompileJournal.Proofs.World.Small

/-!
# Recording is transparent to the build

A build calls the program in front of its compiler, and must not notice.  The compile command goes
through the splitter, is taken apart into a compiler, flags and inputs, and is put together again
after the recording, so the question is whether every token is still there and in its place, even
one that looks like a flag of the program or like a terminator.

It is, with two provisos.  The compiler is started by changing to the current directory under its
path, which has to be short enough for that.  And the recording of the first input may take away
what lies where the undo file of the database goes, so no later input may be that file.

* `launch_of_record`: the command that a run in record mode launches;
* `launch_of_record_fails`: a later input that the recording takes away.
-/

namespace CompileJournal.CommandLine

/-! ## 1. The compile command on the command line -/

/-- Whether a compile command can follow the flags without a terminator: its first token is no
terminator and no flag. -/
def StandsAlone : List Text → Prop
  | [] => True
  | first :: _ => first ≠ terminator ∧ extent? first = none

/-- A command line of flags and a compile command, with a terminator where it is needed. -/
inductive CommandLineOf (flags : List Segment) (command : List Text) : List Text → Prop where
  | terminated : CommandLineOf flags command (flags.flatMap Segment.tokens ++ terminator :: command)
  | plain : StandsAlone command →
      CommandLineOf flags command (flags.flatMap Segment.tokens ++ command)

theorem split_standsAlone {command : List Text} (h : StandsAlone command) :
    split command = ⟨[], command⟩ := by
  cases command with
  | nil => rfl
  | cons first rest => exact split_stop h.2 h.1 rest

/-- The splitter finds the two parts again. -/
theorem split_commandLineOf {flags : List Segment} (h : ∀ s ∈ flags, s.IsComplete)
    {command tokens : List Text} (htokens : CommandLineOf flags command tokens) :
    split tokens = ⟨flags.flatMap Segment.tokens, command⟩ := by
  cases htokens with
  | terminated => rw [split_segments h, split_terminator, List.append_nil]
  | plain hplain => rw [split_segments h, split_standsAlone hplain, List.append_nil]

/-- A run whose flags can be read is what is done with the rest. -/
theorem run_of_split {w : World} {tokens own command : List Text} {settings : Settings}
    (hsplit : split tokens = ⟨own, command⟩) (hread : Settings.read own = .ok settings)
    (hcheck : settings.onlyCheckArguments = false) (refusal : Option Errno) :
    run w tokens refusal = ((perform w settings command refusal).1,
      (perform w settings command refusal).2.shown settings.shownVerbosity) := by
  simp [run, hsplit, hread, hcheck]

/-! ## 2. The command that is launched -/

/-- The command line of a compiler, with the driver that was set in front if there is one. -/
def compilerLine (driver : Text) (command : List Text) : List Text :=
  if driver = [] then command else driver :: command

/-- A compile command is put together again as it was taken apart. -/
theorem compileCommand?_line {driver : Text} {command : List Text}
    (h : driver = [] → command ≠ []) :
    ∃ program arguments, compileCommand? driver command = some (program, arguments) ∧
      program :: arguments = compilerLine driver command := by
  by_cases hdriver : driver = []
  · cases command with
    | nil => exact absurd rfl (h hdriver)
    | cons first rest => exact ⟨first, rest, by simp [compileCommand?, hdriver, compilerLine]⟩
  · exact ⟨driver, command, by simp [compileCommand?, hdriver, compilerLine]⟩

/-- What a run in record mode hands over to, with settings that were read. -/
theorem perform_launch {w w₁ : World} (hw : w.IsSound) (hlost : w.cwd.lost = 0)
    (hshort : Text.byteCount w.cwd.place.text ≤ Disk.maxPath) {settings : Settings}
    (hexport : settings.exportPath = []) (hreplay : settings.replay = false)
    (hdry : settings.dryRun = false) {s : Store} (hopened : s.IsOpenedBy settings w w₁)
    {command : List Text} (hcommand : settings.driver = [] → command ≠ [])
    (hapart : InputsApart w₁ s w.cwd.place.text
      (inputsOf w₁ settings w.cwd.place.text command)) (refusal : Option Errno) :
    (perform w settings command refusal).2.launch =
      some ⟨compilerLine settings.driver command, some w.cwd.place.text⟩ := by
  obtain ⟨program, arguments, hsome, hline⟩ := compileCommand?_line hcommand
  obtain ⟨c, c', -, hall, hperform⟩ :=
    perform_record hw hlost hexport hreplay hopened hsome rfl rfl hapart refusal
  obtain ⟨v, c₁, hattached, -⟩ := hopened.attached hw
  obtain ⟨hsound, hcwd⟩ := hall.closed
  have hdir := hsound.cwd
  rw [hcwd, hattached.cwd] at hdir
  rw [hperform, ← hline]
  exact finish_launch hsound hdir hshort hdry rfl _ refusal

/-! ## 3. Worlds in which a run records -/

/-- A world in which a run with the given flags records, into a database that can be opened and
written. -/
def CanRecord (w : World) (flags : List Segment) : Prop :=
  w.IsSound ∧ ∃ made settings w₁ s, OwnFlags flags made ∧ isOn .replay made = false ∧
    isOn .dryRun made = false ∧ lastValue .exportPath made = [] ∧
    Settings.read (flags.flatMap Segment.tokens) = .ok settings ∧
    Store.IsOpenedBy settings w w₁ s

/-- The flags that name a database in the root. -/
def rootDatabase : List Segment := [{ token := "--db=/x.db" }]

/-- What the flags of `rootDatabase` say. -/
def rootDatabaseMade : List Assignment :=
  [⟨⟨"db", .setting .database⟩, "/x.db"⟩]

theorem rootDatabase_ownFlags : OwnFlags rootDatabase rootDatabaseMade where
  complete := by simp [rootDatabase, Segment.IsComplete]; decide
  assignments := by decide
  own := by simp [rootDatabaseMade, Assignment.IsOwn, Setting.isOwn]
  readable := by simp [rootDatabaseMade, Assignment.IsReadable]

/-- The root with a source file, a database and a file where the undo file of the database
goes. -/
def besideWorld : World :=
  World.written [(["main.c"], .file 0), (["x.db"], .file 1), (["x.db-journal"], .file 2)]
    [.text [], .database ⟨1, 1, some []⟩, .text []]

/-- The end of a chain of directories whose path is too long. -/
def deepWorld : World := World.chainWorld (List.replicate 250 'd') 17

/-- A world whose current directory was removed from the root. -/
def lostWorld : World := { World.written [] [] with cwd := ⟨[], 1⟩ }

theorem canRecord_of {w w₁ : World} (hw : w.IsSound) {s : Store}
    (hopened : s.IsOpenedBy { database := "/x.db" } w w₁) : CanRecord w rootDatabase :=
  ⟨hw, rootDatabaseMade, { database := "/x.db" }, w₁, s, rootDatabase_ownFlags, by decide,
    by decide, by decide, by decide, hopened⟩

/-- The store of a run that opens the first connection of all. -/
def firstStore : Store := ⟨"/x.db", ({} : Settings).timeout, 0⟩

theorem besideWorld_isSound : besideWorld.IsSound :=
  ⟨Disk.isTree_of_entries (by decide) (by decide), rfl⟩

theorem besideWorld_opened : firstStore.IsOpenedBy { database := "/x.db" } besideWorld
    (Store.openAt besideWorld "/x.db" firstStore.timeout).1 :=
  .of_put (by decide) (by decide)

theorem deepWorld_canRecord : CanRecord deepWorld rootDatabase := by
  have hopened : firstStore.IsOpenedBy { database := "/x.db" } deepWorld
      (Store.openAt deepWorld "/x.db" firstStore.timeout).1 :=
    .of_put (by decide +kernel) (by decide +kernel)
  exact canRecord_of (World.chainWorld_isSound (by decide +kernel) 17) hopened

theorem lostWorld_canRecord : CanRecord lostWorld rootDatabase := by
  have hopened : firstStore.IsOpenedBy { database := "/x.db" } lostWorld
      (Store.openAt lostWorld "/x.db" firstStore.timeout).1 :=
    .of_put (by decide) (by decide)
  exact canRecord_of ⟨Disk.isTree_empty, rfl⟩ hopened

/-! ## 4. The launched command -/

/-- **Recording is transparent.**  A run whose own flags are complete and can be read, and which
leaves replaying, dry runs and exports off, launches the compile command it was given, token for
token and in the current directory, behind the last driver that was set if there is one.  This
holds for every command, whatever its tokens look like and however they are classified, and
whatever the system answers.  The current directory must still have a path that can be entered,
the database must be one that can be opened and written, and no input but the first may lie where
the undo file of that database goes. -/
theorem launch_of_record {w : World} (hw : w.IsSound) (hlost : w.cwd.lost = 0)
    (hshort : Text.byteCount w.cwd.place.text ≤ Disk.maxPath) {flags : List Segment}
    {made : List Assignment} (hflags : OwnFlags flags made) (hreplay : isOn .replay made = false)
    (hdry : isOn .dryRun made = false) (hexport : lastValue .exportPath made = []) :
    ∃ settings, Settings.read (flags.flatMap Segment.tokens) = .ok settings ∧
      ∀ {w₁ s}, s.IsOpenedBy settings w w₁ →
      ∀ {command tokens}, (lastValue .driver made = [] → command ≠ []) →
        InputsApart w₁ s w.cwd.place.text (inputsOf w₁ settings w.cwd.place.text command) →
        CommandLineOf flags command tokens → ∀ refusal,
          (run w tokens refusal).2.launch =
            some ⟨compilerLine (lastValue .driver made) command, some w.cwd.place.text⟩ := by
  obtain ⟨settings, hread, hfollows⟩ := read_own hflags
  have hdriver : settings.driver = lastValue .driver made := hfollows.text .driver rfl
  refine ⟨settings, hread, fun hopened command tokens hcommand hapart htokens refusal => ?_⟩
  rw [run_of_split (split_commandLineOf hflags.complete htokens) hread hfollows.onlyCheckArguments,
    ← hdriver]
  exact perform_launch hw hlost hshort ((hfollows.text .exportPath rfl).trans hexport)
    ((hfollows.switch .replay rfl).trans hreplay) ((hfollows.switch .dryRun rfl).trans hdry)
    hopened (hdriver ▸ hcommand) hapart refusal

/-- A compile with one input, beside a file that a later one could not be. -/
theorem launch_of_record_besideWorld :
    (besideWorld.IsSound ∧ CanRecord besideWorld rootDatabase) ∧
      (run besideWorld (rootDatabase.flatMap Segment.tokens ++ terminator :: ["cc", "main.c"])
        none).2.launch = some ⟨["cc", "main.c"], some "/"⟩ := by
  refine ⟨⟨besideWorld_isSound, canRecord_of besideWorld_isSound besideWorld_opened⟩, ?_⟩
  obtain ⟨settings, hread, hlaunch⟩ := launch_of_record besideWorld_isSound rfl (by decide)
    rootDatabase_ownFlags (by decide) (by decide) (by decide)
  have hsettings : ({ database := "/x.db" } : Settings) = settings :=
    Except.ok.inj (Eq.trans (by decide) hread)
  subst hsettings
  have hinputs : (inputsOf (Store.openAt besideWorld "/x.db" firstStore.timeout).1
      { database := "/x.db" } besideWorld.cwd.place.text ["cc", "main.c"]).tail = [] := by
    decide
  refine hlaunch besideWorld_opened (by decide) (fun x hx => ?_) .terminated none
  rw [hinputs] at hx
  exact absurd hx (by simp)

/-- **No proviso can be left out.**  A second input that lies where the undo file goes is lost
when the first one is recorded, and then cannot be recorded itself; a directory whose path is too
long cannot be entered, and one that was removed has no path.  In each case the journal can be
opened and written, and the compiler is not started. -/
theorem launch_of_record_fails :
    (CanRecord besideWorld rootDatabase ∧ besideWorld.cwd.lost = 0 ∧
      Text.byteCount besideWorld.cwd.place.text ≤ Disk.maxPath ∧
      (run besideWorld (rootDatabase.flatMap Segment.tokens ++
        terminator :: ["cc", "main.c", "x.db-journal"]) none).2.launch = none) ∧
    (CanRecord deepWorld rootDatabase ∧ deepWorld.cwd.lost = 0 ∧
      (run deepWorld (rootDatabase.flatMap Segment.tokens ++ terminator :: ["cc"])
        none).2.launch = none) ∧
    CanRecord lostWorld rootDatabase ∧
      (run lostWorld (rootDatabase.flatMap Segment.tokens ++ terminator :: ["cc"])
        none).2.launch = none :=
  ⟨⟨canRecord_of besideWorld_isSound besideWorld_opened, rfl, by decide, by decide +kernel⟩,
    ⟨deepWorld_canRecord, rfl, by decide +kernel⟩, lostWorld_canRecord, by decide +kernel⟩

end CompileJournal.CommandLine
