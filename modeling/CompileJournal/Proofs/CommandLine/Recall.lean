import CompileJournal.Proofs.CommandLine.ReplayRun
import CompileJournal.Proofs.CommandLine.Transparent

/-!
# What was recorded is replayed

A compile is recorded for each of its inputs and replayed for one file at a time, and between the
two there may be any number of other runs.  The second time the file may be given in another way:
from another directory, through other links, by another path.

The record is found because both times the path is resolved to the text of the place where it
leads.  It is still there because the runs in between have left it.  And it says what was recorded
because the flags that were written as words are read back as they were.

* `RecordsAll.holds`, `run_records`: a run that records leaves the rows of its inputs;
* `run_replays`: a run that replays launches what the row says;
* `replay_of_record`: the two together, with other runs in between;
* `replay_of_record_fails`: what can go wrong otherwise.
-/

namespace CompileJournal

open World (IsLater HasRow)

variable {w w₁ : World} {s : Store} {c c' : Connection} {i : Invocation} {inputs : List Text}
  {o : Outcome (List Text)} {q p : Place}

/-! ## 1. The rows of a compile -/

namespace RecordsAll

/-- Every input has its row under the text of the place it leads to. -/
theorem hasRow (h : RecordsAll w s c i inputs o c') (hlinks : w.disk.HasShortLinks)
    (hbase : Path.isAbsolute i.workdir = true) {rows : Table}
    (hrows : w.table? c.handle = some rows) {input : Text} (hinput : input ∈ inputs)
    (hfind : w.find (Path.join i.workdir input) = .ok ⟨q, 0⟩) :
    o.world.HasRow c.handle (Row.ofRecord (i.recordFor q.text)) := by
  obtain ⟨files, -, hfiles, hafter⟩ := h.files
  obtain ⟨file, hmem, v, q', halike, hfind', hfound, hfile⟩ := hfiles input hinput
  have hq : q' = q := congrArg Spot.place (Except.ok.inj (hfind'.symm.trans hfind))
  have hlinks' : v.disk.HasShortLinks := fun hx => hlinks (halike.link hx)
  have htext : file = q.text :=
    hq ▸ Except.ok.inj (hfile.symm.trans (World.resolve_text hlinks' hbase hfound))
  refine ⟨h.handle ▸ h.isOpen.starts.hosts, _, hafter rows hrows, ?_⟩
  rw [Table.get?_putAll (fun _ => rfl), if_pos (htext ▸ hmem)]
  rfl

theorem isLater (h : RecordsAll w s c i inputs o c') : w.IsLater o.world :=
  ⟨h.alike.sound, h.disk.directory, h.alike.link, h.locks⟩

end RecordsAll

/-- Whether nobody but the store that was opened uses its database, and nothing but files lies
beside it. -/
def Store.IsUndisturbed (w w₁ : World) (s : Store) : Prop :=
  ∀ c, s.connection? w₁ = some c →
    w.isShared c.handle.file = false ∧ w₁.HasFilesBeside c.handle

/-- **A compile that was recorded leaves its rows in a calm database**, if that was not disturbed
when its store was opened. -/
theorem RecordsAll.holds {settings : Settings} (h : RecordsAll w₁ s c i inputs o c')
    (hw : w.IsSound) (hopened : s.IsOpenedBy settings w w₁) (hopen : s.IsOpen w₁ c)
    (hp : c.handle.place = some p) (hcalm : s.IsUndisturbed w w₁) {row : Row}
    (hrow : o.world.HasRow c.handle row) :
    w.IsLater (s.close o.world) ∧ (s.close o.world).Holds c.handle row := by
  obtain ⟨v, c₁, hattached, hopen₁, -, hnumber, -⟩ := hopened.attached hw
  obtain rfl : c = c₁ := Option.some.inj (hopen.connection.symm.trans hopen₁.connection)
  obtain ⟨halone, hfiles⟩ := hcalm c hopen.connection
  have hs := h.isOpen.starts
  have hbound := Store.close_bounded h.isOpen.connection hs.sound hs.hosts
  rw [h.handle] at hbound
  have hlater : w.IsLater (s.close o.world) :=
    (hattached.isLater hw).trans (h.isLater.trans
      (Store.close_isLater h.isOpen.connection hs.sound hs.hosts))
  refine ⟨hlater, hlater.sound, Store.close_hasRow h.isOpen.connection hs.sound hs.hosts hrow hp
    (.inl h.handle), ?_, ?_⟩
  · have hothers : (s.close o.world).connections = w.connections ++ [none] := by
      rw [hbound.connections]
      refine h.others.trans ?_
      rw [hattached.connections, hnumber]
      simp
    exact (World.isShared_append hlater.locks hothers (by simp)).trans halone
  · have hafter : o.world.HasFilesBeside c.handle :=
      hfiles.after hopen.starts.sound hopen.starts.hosts h.disk
    intro x e hx he
    exact World.HasFilesBeside.after (w := s.setConnection o.world none) hafter
      ⟨hs.sound.tree, hs.sound.cwd⟩ ⟨hrow.hosts.number, hrow.hosts.place⟩ hbound.disk hx he

/-! ## 2. A run that records -/

namespace CommandLine

variable {settings : Settings}

/-- **A run that records leaves the row of every input**, in a calm database. -/
theorem perform_holds (hw : w.IsSound) (hlost : w.cwd.lost = 0) (hlinks : w.disk.HasShortLinks)
    {driver : Text} {arguments command : List Text} {parts : Classified}
    (hexport : settings.exportPath = []) (hreplay : settings.replay = false)
    (hopened : s.IsOpenedBy settings w w₁) (hcalm : s.IsUndisturbed w w₁)
    (hplace : Store.place? w (settings.databasePath w) = some p)
    (hcommand : compileCommand? settings.driver command = some (driver, arguments))
    (hparts : parts = classify w₁ (ValueFlags.withExtra settings.valueFlags) w.cwd.place.text
      arguments)
    (hapart : InputsApart w₁ s w.cwd.place.text parts.inputs) {input : Text}
    (hinput : input ∈ parts.inputs)
    (hfind : w₁.find (Path.join w.cwd.place.text input) = .ok ⟨q, 0⟩)
    (hundo : s.undo? w₁ ≠ some q) (refusal : Option Errno) :
    ∃ h : Handle, h.place = some p ∧ p.byteCount ≤ maxDatabasePath ∧ h.undo ≠ some q ∧
      w.IsLater (perform w settings command refusal).1 ∧
      (perform w settings command refusal).1.Holds h
        (Row.ofRecord ⟨q.text, driver, parts.flags, w.cwd.place.text⟩) := by
  have hinputs : parts.inputs = inputsOf w₁ settings w.cwd.place.text command := by
    rw [hparts, inputsOf, hcommand]
  obtain ⟨c, c', hopen, hall, hperform⟩ := perform_record
    (i := ⟨driver, parts.flags, w.cwd.place.text⟩) hw hlost hexport hreplay hopened hcommand
    (by rw [hparts]) hinputs hapart refusal
  obtain ⟨v, c₁, hattached, hopen₁, -, -, htable⟩ := hopened.attached hw
  obtain rfl : c = c₁ := Option.some.inj (hopen.connection.symm.trans hopen₁.connection)
  have hp : c.handle.place = some p := hattached.place.trans hplace
  have hlinks' : w₁.disk.HasShortLinks := fun hx => hlinks ((hattached.isLater hw).link hx)
  have hrow := hall.hasRow hlinks' (isAbsolute_text w.cwd.place) htable hinput hfind
  have hsame : s.undo? w₁ = c.handle.undo := by
    rw [Store.undo?, hopen.connection]
    rfl
  rw [hperform]
  exact ⟨c.handle, hp, hattached.room hp, hsame ▸ hundo,
    hall.holds hw hopened hopen hp hcalm hrow⟩

/-! ## 3. Recorded and replayed -/

/-- Every path of a world is short enough to be looked up. -/
def HasShortPaths (w : World) : Prop :=
  ∀ {x e}, w.disk.entryAt x = some e → Text.byteCount x.text ≤ Disk.maxPath

theorem HasShortPaths.links (h : HasShortPaths w) : w.disk.HasShortLinks := by
  intro x t hx
  have hne : x ≠ [] := by
    rintro rfl
    exact absurd hx (by simp)
  exact byteCount_text hne ▸ h hx

/-- The path of the database that flags name. -/
def databaseOf (w : World) (made : List Assignment) : Text :=
  orElse (lastValue .database made) (defaultDatabase w.environment (homeDirectory w))

theorem databasePath_of_follows {made : List Assignment} (h : Settings.Follows {} made settings)
    (w : World) : settings.databasePath w = databaseOf w made := by
  have hdatabase : settings.database = lastValue .database made := h.text .database rfl
  rw [Settings.databasePath, hdatabase, databaseOf]

/-- A run that starts in `w` with the given flags records, into the database at a place, which it
opens in `w₁` as the store `s`. -/
structure RecordsInto (w w₁ : World) (s : Store) (p : Place) (flags : List Segment)
    (made : List Assignment) : Prop where
  own : OwnFlags flags made
  replay : isOn .replay made = false
  exportPath : lastValue .exportPath made = []
  place : Store.place? w (databaseOf w made) = some p
  opened : ∃ settings, Settings.read (flags.flatMap Segment.tokens) = .ok settings ∧
    s.IsOpenedBy settings w w₁
  undisturbed : s.IsUndisturbed w w₁

/-- A run that starts in `w` with the given flags replays, from the database at a place. -/
structure ReplaysFrom (w : World) (p : Place) (flags : List Segment) (made : List Assignment) :
    Prop where
  own : OwnFlags flags made
  replay : isOn .replay made = true
  dryRun : isOn .dryRun made = false
  exportPath : lastValue .exportPath made = []
  names : Store.Names w (databaseOf w made) p

variable {flags : List Segment} {made : List Assignment} {tokens command : List Text}

/-- A run that records leaves the row of each of its inputs. -/
theorem run_records (hw : w.IsSound) (hlost : w.cwd.lost = 0) (hshort : HasShortPaths w)
    (hrecords : RecordsInto w w₁ s p flags made) {driver : Text} {arguments : List Text}
    (hcommand : compileCommand? (lastValue .driver made) command = some (driver, arguments))
    {parts : Classified} (hparts : parts = classify w₁
      (ValueFlags.withExtra (allValues .valueFlag made)) w.cwd.place.text arguments)
    (hapart : InputsApart w₁ s w.cwd.place.text parts.inputs) {input : Text}
    (hinput : input ∈ parts.inputs)
    (hfind : w₁.find (Path.join w.cwd.place.text input) = .ok ⟨q, 0⟩)
    (hundo : s.undo? w₁ ≠ some q) (htokens : CommandLineOf flags command tokens)
    (refusal : Option Errno) :
    ∃ h : Handle, h.place = some p ∧ p.byteCount ≤ maxDatabasePath ∧ h.undo ≠ some q ∧
      w.IsLater (run w tokens refusal).1 ∧ (run w tokens refusal).1.Holds h
        (Row.ofRecord ⟨q.text, driver, parts.flags, w.cwd.place.text⟩) := by
  obtain ⟨settings, hread, hopened⟩ := hrecords.opened
  obtain ⟨settings', hread', hfollows⟩ := read_own hrecords.own
  obtain rfl : settings = settings' := Except.ok.inj (hread.symm.trans hread')
  have hdriver : settings.driver = lastValue .driver made := hfollows.text .driver rfl
  have hvalueFlags : settings.valueFlags = allValues .valueFlag made := hfollows.valueFlags
  rw [run_of_split (split_commandLineOf hrecords.own.complete htokens) hread
    hfollows.onlyCheckArguments]
  exact perform_holds hw hlost hshort.links
    ((hfollows.text .exportPath rfl).trans hrecords.exportPath)
    ((hfollows.switch .replay rfl).trans hrecords.replay) hopened hrecords.undisturbed
    ((databasePath_of_follows hfollows w).symm ▸ hrecords.place) (hdriver.symm ▸ hcommand)
    (hvalueFlags.symm ▸ hparts) hapart hinput hfind hundo refusal

/-- A run that replays launches what the row of the file says, with the parts replaced that its
flags name. -/
theorem run_replays {h : Handle} {r : Record} (hh : w.Holds h (Row.ofRecord r))
    (hp : h.place = some p) (hroom : p.byteCount ≤ maxDatabasePath)
    (hlinks : w.disk.HasShortLinks) (hlost : w.cwd.lost = 0)
    (hreplays : ReplaysFrom w p flags made) {spelling : Text}
    (hfind : w.find (Path.join w.cwd.place.text spelling) = .ok ⟨q, 0⟩)
    (hfile : r.file = q.text) (hundo : h.undo ≠ some q) {start : Place}
    (hstart : r.workdir = start.text) (hdir : w.disk.entryAt start = some .directory)
    (hshort : Text.byteCount start.text ≤ Disk.maxPath) {extra : List Text}
    (htokens : CommandLineOf flags (spelling :: extra) tokens) (refusal : Option Errno) :
    (run w tokens refusal).2.launch = some ⟨inFront (lastValue .wrapper made) ++
      orElse (lastValue .driver made) r.driver ::
        (r.flags ++ extra ++ [orElse (lastValue .alternative made) r.file]), some start.text⟩ := by
  obtain ⟨settings, hread, hfollows⟩ := read_own hreplays.own
  have hwrapper : settings.wrapper = lastValue .wrapper made := hfollows.text .wrapper rfl
  have hdriver : settings.driver = lastValue .driver made := hfollows.text .driver rfl
  have halternative : settings.alternative = lastValue .alternative made :=
    hfollows.text .alternative rfl
  obtain ⟨v, events, hlater, hperform⟩ := perform_replay hh hp hroom hlinks hlost
    ((databasePath_of_follows hfollows w).symm ▸ hreplays.names)
    ((hfollows.text .exportPath rfl).trans hreplays.exportPath)
    ((hfollows.switch .replay rfl).trans hreplays.replay) hfind hfile hundo extra refusal
  have hlaunch := finish_launch hlater.sound (hlater.directory hdir) hshort
    ((hfollows.switch .dryRun rfl).trans hreplays.dryRun)
    (((overridesOf settings extra).workdir_command r).trans hstart) events refusal
  rw [run_of_split (split_commandLineOf hreplays.own.complete htokens) hread
    hfollows.onlyCheckArguments, hperform]
  refine hlaunch.trans ?_
  rw [Overrides.argv_command, overridesOf, hwrapper, hdriver, halternative]

/-! ## 4. Three runs in the root -/

theorem hasShortPaths_of_entries
    (hshort : ∀ e ∈ w.disk.entries, Text.byteCount e.1.2.text ≤ Disk.maxPath) :
    HasShortPaths w :=
  Disk.forall_entryAt (P := fun x _ => Text.byteCount x.text ≤ Disk.maxPath) (by decide) hshort

/-- Where nothing but files lies, nothing else lies beside a database. -/
theorem hasFilesBeside_of_entries {h : Handle}
    (hfiles : ∀ e ∈ w.disk.entries, e.2.isFile = true) : w.HasFilesBeside h := by
  intro x e hx he
  have hne : x ≠ [] := by
    rintro rfl
    rcases hx with hx | hx
    all_goals
      obtain ⟨name, outer, -, hnil⟩ := Handle.beside_eq_some hx
      exact absurd hnil (by simp)
  exact Entry.exists_of_isFile (Disk.forall_entryAt (P := fun x e => x ≠ [] → e.isFile = true)
    (fun h => absurd rfl h) (fun e he _ => hfiles e he) he hne)

/-- A run on another database that makes nothing but files leaves a record alone. -/
theorem leavesAlone_of_entries {file : Text}
    (hread : Settings.read (split tokens).own = .ok settings) (hexport : settings.exportPath = [])
    (hplace : Store.place? w (settings.databasePath w) ≠ some p)
    (hfiles : ∀ e ∈ (run w tokens none).1.disk.entries,
      e.2.isFile = true ∨ w.disk.entryAt e.1.2 = some e.2) : LeavesAlone p file w tokens none where
  exported hread' := by
    obtain rfl := Except.ok.inj (hread.symm.trans hread')
    exact fun hto => hto.1 hexport
  recorded hread' := by
    obtain rfl := Except.ok.inj (hread.symm.trans hread')
    exact fun h => absurd h hplace
  tree _ hx hne := by
    have hkept := Disk.forall_entryAt
      (P := fun x e => e.isFile = true ∨ w.disk.entryAt x = some e) (.inr rfl) hfiles hx
    refine hkept.resolve_left ?_
    intro hfile
    obtain ⟨n, rfl⟩ := Entry.exists_of_isFile hfile
    exact hne n rfl

/-- The root with a source file. -/
def mainWorld : World := World.written [(["main.c"], .file 0)] [.text []]

/-- A compile of the source file, recorded in the database of `rootDatabase`. -/
def mainTokens : List Text :=
  rootDatabase.flatMap Segment.tokens ++ terminator :: ["cc", "-O2", "main.c"]

/-- Another one, recorded elsewhere. -/
def otherTokens : List Text := ["--db=/y.db", "--", "cc", "main.c"]

/-- The flags of a replay by another compiler. -/
def rootReplay : List Segment :=
  [{ token := "--db=/x.db" }, { token := "--replay" },
    { token := "--driver", value := some "clang" }]

/-- What the flags of `rootReplay` say. -/
def rootReplayMade : List Assignment :=
  [⟨⟨"db", .setting .database⟩, "/x.db"⟩, ⟨⟨"replay", .switch .replay⟩, "true"⟩,
    ⟨⟨"driver", .setting .driver⟩, "clang"⟩]

/-- The world after the first compile. -/
def recordedWorld : World := (run mainWorld mainTokens none).1

/-- The world after both. -/
def laterWorld : World := (run (recordedWorld.startedIn ⟨[], 0⟩ []) otherTokens none).1

theorem mainWorld_isSound : mainWorld.IsSound :=
  ⟨Disk.isTree_of_entries (by decide) (by decide), rfl⟩

theorem mainWorld_recordsInto : RecordsInto mainWorld
    (Store.openAt mainWorld "/x.db" firstStore.timeout).1 firstStore ["x.db"] rootDatabase
    rootDatabaseMade where
  own := rootDatabase_ownFlags
  replay := by decide
  exportPath := by decide
  place := by decide
  opened := ⟨{ database := "/x.db" }, by decide, .of_put (by decide) (by decide)⟩
  undisturbed _ _ := ⟨rfl, hasFilesBeside_of_entries (by decide)⟩

theorem otherTokens_read :
    Settings.read (split otherTokens).own = .ok { database := "/y.db" } := by
  decide

theorem otherTokens_leaves : Leaves ["x.db"] "/main.c" (recordedWorld.startedIn ⟨[], 0⟩ [])
    otherTokens none where
  toLeavesAlone := leavesAlone_of_entries otherTokens_read rfl (by decide +kernel)
    (by decide +kernel)
  beside hread hother := by
    have hplace : Store.place? (recordedWorld.startedIn ⟨[], 0⟩ []) "/y.db" =
        some ["y.db".toList] := by
      decide +kernel
    obtain rfl := Except.ok.inj (otherTokens_read.symm.trans hread)
    obtain rfl := Option.some.inj (hplace.symm.trans hother)
    decide

theorem rootReplay_replaysFrom :
    ReplaysFrom (laterWorld.startedIn ⟨[], 0⟩ []) ["x.db"] rootReplay rootReplayMade where
  own.complete := by simp [rootReplay, Segment.IsComplete]; decide
  own.assignments := by decide
  own.own := by simp [rootReplayMade, Assignment.IsOwn, Setting.isOwn, Switch.isOwn]
  own.readable := by simp [rootReplayMade, Assignment.IsReadable]; decide
  replay := by decide
  dryRun := by decide
  exportPath := by decide
  names := ⟨by decide +kernel, by decide, fun _ => rfl⟩

/-- The command line that records a compile in a database. -/
def recordLine (path : Text) (command : List Text) : List Text :=
  ("--db=".toList ++ path) :: terminator :: command

/-- The command line that replays a file from a database. -/
def replayLine (path file : Text) : List Text :=
  ["--db=".toList ++ path, "--replay", terminator, file]

/-- Three runs in the root, in which a file is forgotten: its compile is recorded, another run
leaves the record alone, and the third one asks the same database for the file. -/
structure IsForgotten (w : World) (path path' : Text) (p q : Place) (later : List Text) :
    Prop where
  sound : w.IsSound
  short : HasShortPaths w
  opened : ∃ w₁ s, Store.IsOpenedBy { database := path } w w₁ s
  place : Store.place? w path = some p
  recorded : .recorded "cc" q.text ∈ (run w (recordLine path ["cc", q.text]) none).2.events
  leaves : LeavesAlone p q.text (run w (recordLine path ["cc", q.text]) none).1 later none
  again : Store.place? (run (run w (recordLine path ["cc", q.text]) none).1 later none).1 path' =
    some p
  launch : (run (run (run w (recordLine path ["cc", q.text]) none).1 later none).1
    (replayLine path' q.text) none).2.launch = none

/-- The root with a source file and a link where the log of a database goes. -/
def linkWorld : World :=
  World.written [(["main.c"], .file 0), (["x.db-wal"], .link "/y.db")] [.text []]

/-- The root with a source file, a directory and two links, by which a path to a database in the
directory reads as if it led through the place of the log. -/
def detourWorld : World :=
  World.written [(["main.c"], .file 0), (["d"], .directory), (["L", "d"], .link "/"),
    (["x.db-wal"], .link "/d")] [.text []]

/-! ## 5. The replayed command -/

/-- **What was recorded is replayed.**  After a run that recorded a compile, and any number of runs
that leave the record of one of its inputs, a replay of that input launches one command in the
directory of the compile: behind the wrapper, if there is one, the compiler that was recorded or
the one that is set instead, the flags as they were told from the inputs, the further arguments,
and the file by the text of its place or the one that is set instead.  The input may be given by
any path that leads to it, from any directory, and the database by any path that names it.

The database must not be disturbed while it is recorded in, nor a directory come beside it when it
is opened again; and neither the input nor any other but the first may lie where its undo file
goes. -/
theorem replay_of_record (hw : w.IsSound) (hlost : w.cwd.lost = 0) (hshort : HasShortPaths w)
    (hrecords : RecordsInto w w₁ s p flags made) {driver : Text} {arguments : List Text}
    (hcommand : compileCommand? (lastValue .driver made) command = some (driver, arguments))
    {parts : Classified} (hparts : parts = classify w₁
      (ValueFlags.withExtra (allValues .valueFlag made)) w.cwd.place.text arguments)
    (hapart : InputsApart w₁ s w.cwd.place.text parts.inputs) {input : Text}
    (hinput : input ∈ parts.inputs)
    (hfind : w₁.find (Path.join w.cwd.place.text input) = .ok ⟨q, 0⟩)
    (hundo : s.undo? w₁ ≠ some q) (htokens : CommandLineOf flags command tokens)
    {refusal : Option Errno} {w₂ : World}
    (hruns : LaterRuns p q.text (run w tokens refusal).1 w₂) {cwd : Place}
    (hcwd : w₂.disk.entryAt cwd = some .directory) {environment : List (Text × Text)}
    {flags' : List Segment} {made' : List Assignment}
    (hreplays : ReplaysFrom (w₂.startedIn ⟨cwd, 0⟩ environment) p flags' made') {spelling : Text}
    (hspelling : (w₂.startedIn ⟨cwd, 0⟩ environment).find (Path.join cwd.text spelling) =
      .ok ⟨q, 0⟩) {extra tokens' : List Text}
    (htokens' : CommandLineOf flags' (spelling :: extra) tokens') (refusal' : Option Errno) :
    (run (w₂.startedIn ⟨cwd, 0⟩ environment) tokens' refusal').2.launch =
      some ⟨inFront (lastValue .wrapper made') ++ orElse (lastValue .driver made') driver ::
        (parts.flags ++ extra ++ [orElse (lastValue .alternative made') q.text]),
        some w.cwd.place.text⟩ := by
  obtain ⟨h, hp, hroom, hundo', hlater, hholds⟩ := run_records hw hlost hshort hrecords hcommand
    hparts hapart hinput hfind hundo htokens refusal
  obtain ⟨hlater', hholds'⟩ := laterRuns_holds hruns hholds hp
  have hlater₂ : w.IsLater w₂ := hlater.trans hlater'
  exact run_replays (hholds'.startedIn hcwd environment) hp hroom
    (fun hx => hshort.links (hlater₂.link hx)) rfl hreplays hspelling rfl hundo' rfl
    (hlater₂.directory hw.cwd) (hshort hw.cwd) htokens' refusal'

/-- A compile that is recorded, then recorded elsewhere, and replayed under another spelling, by
another compiler and with one more argument. -/
theorem replay_of_record_mainWorld :
    (RecordsInto mainWorld (Store.openAt mainWorld "/x.db" firstStore.timeout).1 firstStore
        ["x.db"] rootDatabase rootDatabaseMade ∧
      LaterRuns ["x.db"] "/main.c" recordedWorld laterWorld ∧
      ReplaysFrom (laterWorld.startedIn ⟨[], 0⟩ []) ["x.db"] rootReplay rootReplayMade) ∧
    (run (laterWorld.startedIn ⟨[], 0⟩ [])
      (rootReplay.flatMap Segment.tokens ++ terminator :: ["./main.c", "-v"]) none).2.launch =
        some ⟨["clang", "-O2", "-v", "/main.c"], some "/"⟩ := by
  have hlater : LaterRuns ["x.db"] "/main.c" recordedWorld laterWorld :=
    .next .none rfl otherTokens_leaves
  refine ⟨⟨mainWorld_recordsInto, hlater, rootReplay_replaysFrom⟩, ?_⟩
  have hcommand : compileCommand? (lastValue .driver rootDatabaseMade) ["cc", "-O2", "main.c"] =
      some ("cc".toList, ["-O2".toList, "main.c".toList]) := by
    decide
  have hparts : (⟨["-O2"], ["main.c"]⟩ : Classified) =
      classify (Store.openAt mainWorld "/x.db" firstStore.timeout).1
        (ValueFlags.withExtra (allValues .valueFlag rootDatabaseMade)) mainWorld.cwd.place.text
        ["-O2", "main.c"] := by
    decide +kernel
  have hspelling : (laterWorld.startedIn ⟨[], 0⟩ []).find (Path.join (Place.text []) "./main.c") =
      .ok ⟨["main.c"], 0⟩ := by
    decide +kernel
  exact replay_of_record (q := ["main.c"]) mainWorld_isSound rfl
    (hasShortPaths_of_entries (by decide)) mainWorld_recordsInto hcommand hparts
    (fun x hx => absurd hx (by simp)) List.mem_cons_self (by decide +kernel) (by decide +kernel)
    .terminated hlater rfl rootReplay_replaysFrom hspelling .terminated none

/-- **No proviso can be left out.**  A run on a database that takes this one for its undo file
removes it; an input that lies where its own undo file goes is removed when it is recorded; a link
where its log goes comes to life with the database it leads to; and a directory that is made there
when the database is opened again is no log either. -/
theorem replay_of_record_fails :
    IsForgotten mainWorld "/foo-journal" "/foo-journal" ["foo-journal"] ["main.c"]
      ["--db=/foo", "--", "ls"] ∧
    IsForgotten besideWorld "/x.db" "/x.db" ["x.db"] ["x.db-journal"] ["--db=/y.db", "--", "ls"] ∧
    IsForgotten linkWorld "/x.db" "/x.db" ["x.db"] ["main.c"] ["--db=/y.db", "--", "ls"] ∧
    IsForgotten detourWorld "/d/x.db" "/d/L/../x.db-wal/x.db" ["x.db", "d"] ["main.c"]
      ["--db=/y.db", "--", "ls"] := by
  have hfoo : Settings.read (split ["--db=/foo", "--", "ls"]).own = .ok { database := "/foo" } := by
    decide
  have hy : Settings.read (split ["--db=/y.db", "--", "ls"]).own = .ok { database := "/y.db" } := by
    decide
  refine ⟨?_, ?_, ?_, ?_⟩
  · exact {
      sound := mainWorld_isSound
      short := hasShortPaths_of_entries (by decide)
      opened := ⟨(Store.openAt mainWorld "/foo-journal" ({} : Settings).timeout).1,
        ⟨"/foo-journal", ({} : Settings).timeout, 0⟩,
        .of_put (by decide +kernel) (by decide +kernel)⟩
      place := by decide +kernel
      recorded := by decide +kernel
      leaves := leavesAlone_of_entries hfoo rfl (by decide +kernel) (by decide +kernel)
      again := by decide +kernel
      launch := by decide +kernel }
  · exact {
      sound := besideWorld_isSound
      short := hasShortPaths_of_entries (by decide)
      opened := ⟨_, _, besideWorld_opened⟩
      place := by decide +kernel
      recorded := by decide +kernel
      leaves := leavesAlone_of_entries hy rfl (by decide +kernel) (by decide +kernel)
      again := by decide +kernel
      launch := by decide +kernel }
  · exact {
      sound := ⟨Disk.isTree_of_entries (by decide) (by decide), rfl⟩
      short := hasShortPaths_of_entries (by decide)
      opened := ⟨(Store.openAt linkWorld "/x.db" firstStore.timeout).1, firstStore,
        .of_put (by decide +kernel) (by decide +kernel)⟩
      place := by decide +kernel
      recorded := by decide +kernel
      leaves := leavesAlone_of_entries hy rfl (by decide +kernel) (by decide +kernel)
      again := by decide +kernel
      launch := by decide +kernel }
  · exact {
      sound := ⟨Disk.isTree_of_entries (by decide) (by decide), rfl⟩
      short := hasShortPaths_of_entries (by decide)
      opened := ⟨(Store.openAt detourWorld "/d/x.db" ({} : Settings).timeout).1,
        ⟨"/d/x.db", ({} : Settings).timeout, 0⟩,
        .of_put (by decide +kernel) (by decide +kernel)⟩
      place := by decide +kernel
      recorded := by decide +kernel
      leaves := leavesAlone_of_entries hy rfl (by decide +kernel) (by decide +kernel)
      again := by decide +kernel
      launch := by decide +kernel }

end CommandLine

end CompileJournal
