import CompileJournal.Proofs.CommandLine.LaterRuns
import CompileJournal.Proofs.World.Small

/-!
# Bookkeeping before the launch

A run launches a command at its very end, when all its work on the journal is done and the store
is closed.  So a launch says that everything before it went through: the flags were read, the store
was opened, the command was built, and its directory was entered.  In record mode the command is
built by recording, so by then the journal has a row for every input.

The other direction is about the runs that must not change a row: those whose flags cannot be read
do nothing at all, and those that replay or export only read the journal.  For them the bound on
reading is enough, which leaves every file of the disk as it is, except the one that is exported
to.

* `Launches`: all that comes before a launch, and `launch_iff`: nothing else launches;
* `launches_recorded`: the journal at the launch of a recorded compile;
* `reads_tableAt`: replaying and exporting keep all rows;
* `launch_after_bookkeeping`: all of it.
-/

namespace CompileJournal

namespace CommandLine

variable {w w₁ : World} {s : Store} {c : Connection} {settings : Settings} {tokens : List Text}
  {cwd : Text} {command : Command} {l : Launch} {refusal : Option Errno} {p q : Place}
  {rows : Table}

/-! ## 1. What comes before a launch -/

/-- A run that ends with a launch: its flags are read and ask for one, its store is opened, the
work on the journal ends with a command, and the directory of the command is entered when the store
has been closed. -/
structure Launches (w : World) (tokens : List Text) (settings : Settings) (cwd : Text)
    (w₁ : World) (s : Store) (command : Command) (l : Launch) : Prop where
  flags : Settings.read (split tokens).own = .ok settings
  isChecked : settings.onlyCheckArguments = false
  isExport : settings.exportPath = []
  isDry : settings.dryRun = false
  directory : w.currentDirectory = .ok cwd
  opened : Store.openAt w (settings.databasePath w) settings.timeout = (w₁, .ok s)
  built : (prepare w₁ s settings cwd (split tokens).command).result = .ok (.launch command)
  entered : ∃ w₂ here,
    enter (s.close (prepare w₁ s settings cwd (split tokens).command).world) command.workdir =
      .ok w₂ ∧ w₂.currentDirectory = .ok here ∧ l = ⟨command.argv, some here⟩

/-- A process is replaced once its directory has been entered, and only then. -/
theorem replaceProcess_launch (w : World) (command : Command) (refusal : Option Errno) :
    (replaceProcess w command.argv command.workdir refusal).launch = some l ↔
      ∃ w₂ here, enter w command.workdir = .ok w₂ ∧ w₂.currentDirectory = .ok here ∧
        l = ⟨command.argv, some here⟩ := by
  unfold replaceProcess
  cases hshown : reportedDirectory w command.workdir with
  | error e =>
    refine ⟨fun h => absurd h (by simp), ?_⟩
    rintro ⟨w₂, here, henter, hhere, -⟩
    -- Only the current directory can be without a path, and then it is the one to be entered.
    unfold reportedDirectory at hshown
    unfold enter at henter
    split at hshown
    · next hstay =>
      rw [if_pos hstay] at henter
      rw [← Except.ok.inj henter, hshown] at hhere
      exact absurd hhere (by simp)
    · exact absurd hshown (by simp)
  | ok shown =>
    simp only [Command.argv]
    cases henter : enter w command.workdir with
    | error e => simp
    | ok w₂ =>
      simp only [reduceCtorEq, if_false, Except.ok.injEq]
      cases hhere : w₂.currentDirectory with
      | error e => simp [hhere]
      | ok here => simp [hhere, eq_comm]

theorem finish_launch_eq (w : World) (settings : Settings) (events : List Event)
    (refusal : Option Errno) (command : Command) :
    (finish w settings events refusal command).launch =
      if settings.dryRun then none
      else (replaceProcess w command.argv command.workdir refusal).launch := by
  unfold finish
  simp only
  split
  · rfl
  split
  · rfl
  split
  · rfl
  · rfl

/-- The work on the journal ends with a command in two of three modes. -/
theorem exportPath_of_built (h : (prepare w s settings cwd tokens).result =
    .ok (.launch command)) : settings.exportPath = [] := by
  by_contra hexport
  rw [prepare, if_pos hexport] at h
  simp only at h
  cases hresult : (exportTo w s settings.exportPath).result with
  | error e =>
    rw [hresult] at h
    exact absurd h (by simp [Except.map])
  | ok n =>
    rw [hresult] at h
    exact absurd h (by simp [Except.map])

/-- **A launch comes at the end of a run that went through**, and nothing else launches. -/
theorem launch_iff (w : World) (tokens : List Text) (refusal : Option Errno) (l : Launch) :
    (run w tokens refusal).2.launch = some l ↔
      ∃ settings cwd w₁ s command, Launches w tokens settings cwd w₁ s command l := by
  constructor
  · intro h
    unfold run at h
    simp only at h
    split at h
    · exact absurd h (by simp)
    · exact absurd h (by simp)
    · exact absurd h (by simp)
    next settings hread =>
    split at h
    · exact absurd h (by simp)
    next hcheck =>
    simp only [Report.shown] at h
    rcases perform_cases w settings (split tokens).command refusal with
      ⟨e, -, hperform⟩ | ⟨-, w₁, e, -, -, hperform⟩ | ⟨cwd, w₁, s, hcwd, hopen, hperform⟩
    · rw [hperform] at h
      exact absurd h (by simp)
    · rw [hperform, failed] at h
      split at h <;> exact absurd h (by simp)
    rw [hperform, conclude] at h
    simp only at h
    split at h
    · simp only [failed] at h
      split at h <;> exact absurd h (by simp)
    · exact absurd h (by simp)
    · exact absurd h (by simp)
    next command hbuilt =>
    rw [finish_launch_eq] at h
    split at h
    · exact absurd h (by simp)
    next hdry =>
    exact ⟨settings, cwd, w₁, s, command, hread, by simpa using hcheck,
      exportPath_of_built hbuilt, by simpa using hdry, hcwd, hopen, hbuilt,
      (replaceProcess_launch _ command refusal).mp h⟩
  · rintro ⟨settings, cwd, w₁, s, command, hl⟩
    have hlaunch := (replaceProcess_launch _ command refusal).mpr hl.entered
    simp only [run, hl.flags, hl.isChecked, Report.shown,
      perform_of_opened hl.directory hl.opened, conclude, hl.built, finish_launch_eq, hl.isDry]
    exact hlaunch

/-- The world at a launch is the one in which the store was closed. -/
theorem Launches.world (hl : Launches w tokens settings cwd w₁ s command l)
    (refusal : Option Errno) : (run w tokens refusal).1 =
      s.close (prepare w₁ s settings cwd (split tokens).command).world := by
  simp only [run, hl.flags, hl.isChecked, perform_of_opened hl.directory hl.opened]
  rfl

/-! ## 2. The journal at the launch -/

/-- A store that was opened, with the rows that were at its place before. -/
theorem opened_tableAt (hw : w.IsSound) {path : Text} {timeout : Binary64}
    (hopened : Store.openAt w path timeout = (w₁, .ok s)) :
    ∃ c, s.IsOpen w₁ c ∧ c.handle.place = Store.place? w path ∧
      (∀ {p}, c.handle.place = some p → w₁.table? c.handle = some ((w.tableAt p).getD [])) := by
  have hspec := Store.openAt_spec hw path timeout
  rw [hopened] at hspec
  rcases hspec with ⟨e, he, -⟩ | ⟨v, c, ha, ho, -, -, htable⟩
  · exact absurd he (by simp)
  · refine ⟨c, ho, ha.place, fun {p} hp => ?_⟩
    rw [htable, ha.tableAt_before hw hp]

/-- **When a recorded compile is launched, the journal has a row for each of its inputs**, put one
after the other into the rows that were there before the run. -/
theorem launches_recorded (hw : w.IsSound)
    (hl : Launches w tokens settings cwd w₁ s command l) (hreplay : settings.replay = false)
    (hp : Store.place? w (settings.databasePath w) = some p) (refusal : Option Errno) :
    ∃ driver arguments, compileCommand? settings.driver (split tokens).command =
        some (driver, arguments) ∧ command = ⟨driver, arguments, cwd⟩ ∧
      ∃ parts, parts = classify w₁ (ValueFlags.withExtra settings.valueFlags) cwd arguments ∧
      ∃ files, parts.inputs.map (w₁.resolve cwd) = files.map .ok ∧
        (run w tokens refusal).1.tableAt p = some (Table.putAll
          (fun file => Row.ofRecord ⟨file, driver, parts.flags, cwd⟩) files
          ((w.tableAt p).getD [])) := by
  obtain ⟨c, ho, hplace, hrows⟩ := opened_tableAt hw hl.opened
  rw [hp] at hplace
  have hbuilt := hl.built
  have hworld := hl.world refusal
  rw [prepare, if_neg (not_not.mpr hl.isExport), hreplay, if_neg (by simp), prepareRecord]
    at hbuilt hworld
  cases hcompile : compileCommand? settings.driver (split tokens).command with
  | none =>
    rw [hcompile] at hbuilt
    exact absurd hbuilt (by simp)
  | some r =>
  obtain ⟨driver, arguments⟩ := r
  simp only [hcompile] at hbuilt hworld
  generalize hparts : classify w₁ (ValueFlags.withExtra settings.valueFlags) cwd arguments = parts
    at hbuilt hworld
  cases hresult : (record s ⟨driver, parts.flags, cwd⟩ w₁ parts.inputs).result with
  | error e =>
    rw [hresult] at hbuilt
    exact absurd hbuilt (by simp [Except.map])
  | ok files =>
  rw [hresult] at hbuilt
  obtain ⟨c', heach⟩ := record_ok ho hresult
  have hs := heach.isOpen.starts
  have hhandle : c'.handle.place = some p := heach.handle ▸ hplace
  have htable := heach.rows _ (hrows hplace)
  rw [← heach.handle, ← hs.hosts.tableAt_eq hhandle] at htable
  refine ⟨driver, arguments, rfl, (Prepared.launch.inj (Except.ok.inj hbuilt)).symm, parts,
    hparts.symm, files, ?_, ?_⟩
  · have hnames := heach.names
    rw [← hparts] at hnames ⊢
    exact resolve_inputs hnames
  · rw [hworld]
    exact Store.close_tableAt heach.isOpen.connection hs.sound hs.hosts htable
      (Handle.not_isBeside hhandle)

/-! ## 3. Runs that only read -/

theorem replay_world (w : World) (s : Store) (cwd input : Text) (o : Overrides) :
    (replay w s cwd input o).world = w ∨
      (replay w s cwd input o).world = (s.use w fun w c => w.readRows c .get).1 := by
  unfold replay
  split
  · exact .inl rfl
  next file _ =>
  rw [← get_world w s file]
  split
  all_goals
    next heq =>
    rw [heq]
    exact .inr rfl

/-- The work of a run that replays or exports: the journal is read at most, and then a text may be
written to the path of the export. -/
theorem prepare_reads (ho : s.IsOpen w c)
    (hmode : settings.replay = true ∨ settings.exportPath ≠ []) (cwd : Text)
    (tokens : List Text) :
    ∃ w' c', s.IsOpen w' c' ∧ c'.handle = c.handle ∧
      w.disk.ChangesOnly c.handle.IsBeside (fun _ => False) w'.disk ∧
      ((prepare w s settings cwd tokens).world = w' ∨
        settings.exportPath ≠ [] ∧ w' = (entries w s).1 ∧ ∃ t,
          w'.writeText settings.exportPath t = .ok (prepare w s settings cwd tokens).world) := by
  unfold prepare
  split
  · next hexport =>
    obtain ⟨c', ho', hhandle, hbound⟩ := Store.use_readRows ho .list
    have hworld : (entries w s).1 = (s.use w fun w c => w.readRows c .list).1 :=
      records_world w s
    rw [← hworld] at ho' hbound
    refine ⟨(entries w s).1, c', ho', hhandle, hbound, ?_⟩
    unfold exportTo
    cases hlist : entries w s with
    | mk w' r =>
    cases r with
    | error e => exact .inl rfl
    | ok es =>
      simp only
      cases hwrite : w'.writeText settings.exportPath (CompileEntry.renderAll es) with
      | error e => exact .inl rfl
      | ok w'' => exact .inr ⟨hexport, trivial, _, hwrite⟩
  next hexport =>
  rw [if_pos (hmode.resolve_right hexport)]
  cases tokens with
  | nil => exact ⟨w, c, ho, rfl, .refl ho.starts.sound.tree, .inl rfl⟩
  | cons input extra =>
    rcases replay_world w s cwd input ⟨settings.wrapper, settings.driver, settings.alternative,
      extra⟩ with hworld | hworld
    · exact ⟨w, c, ho, rfl, .refl ho.starts.sound.tree, .inl hworld⟩
    · obtain ⟨c', ho', hhandle, hbound⟩ := Store.use_readRows ho .get
      exact ⟨_, c', ho', hhandle, hbound, .inl hworld⟩

/-- **Replaying and exporting keep all rows**, however the run ends: those of its own database and
of all others, but for one that lies beside its own or is exported over. -/
theorem reads_tableAt (hw : w.IsSound) (hread : Settings.read (split tokens).own = .ok settings)
    (hmode : settings.replay = true ∨ settings.exportPath ≠ []) (hrows : w.tableAt q = some rows)
    (hapart : ∀ p, Store.place? w (settings.databasePath w) = some p → q = p ∨ ¬LiesBeside q p)
    (hexport : ¬ExportsTo w settings q) (refusal : Option Errno) :
    (run w tokens refusal).1.tableAt q = some rows := by
  have hbeside : ∀ p, Store.place? w (settings.databasePath w) = some p → ¬LiesBeside q p := by
    intro p hp
    rcases hapart p hp with rfl | hq
    · exact Handle.not_isBeside rfl
    · exact hq
  have hopened := Store.openAt_tableAt hw hrows settings.timeout hbeside
  unfold run
  simp only [hread]
  split
  · exact hrows
  rcases perform_cases w settings (split tokens).command refusal with
    ⟨e, -, hperform⟩ | ⟨-, w₁, e, -, hopen, hperform⟩ | ⟨cwd, w₁, s, -, hopen, hperform⟩
  · rw [hperform]
    exact hrows
  · rw [hopen] at hopened
    rw [hperform]
    exact hopened
  rw [hopen] at hopened
  rw [hperform]
  obtain ⟨c, ho, hplace, -⟩ := opened_tableAt hw hopen
  have hq : ¬c.handle.IsBeside q := by
    cases hp : c.handle.place with
    | none => exact Handle.not_isBeside_of_private hp
    | some p =>
      rw [Handle.isBeside_iff hp]
      exact hbeside p (hplace.symm.trans hp)
  obtain ⟨w', c', ho', hhandle, hbound, hworld⟩ :=
    prepare_reads ho hmode cwd (split tokens).command
  have hs := ho'.starts
  have hrows' : w'.tableAt q = some rows :=
    World.tableAt_after ho.starts.sound hbound hopened hq fun _ _ h => h
  rw [← hhandle] at hq
  simp only
  rcases hworld with hworld | ⟨hne, hentries, t, hwrite⟩
  · rw [hworld]
    exact Store.close_tableAt ho'.connection hs.sound hs.hosts hrows' hq
  · -- The text was written to another file, and the store is still there to be closed.
    have hwritten := World.writeText_bounded hs.sound hwrite
    obtain ⟨n, hh, -⟩ := World.hosts_of_tableAt hs.sound hrows'
    have hentry := hh.place rfl
    refine Store.close_tableAt (c := c') ?_ (hwritten.sound hs.sound) ?_ ?_ hq
    · rw [Store.connection?, hwritten.connections]
      exact ho'.connection
    · exact hs.hosts.elsewhere hwritten.disk fun hp => by simp [hs.hosts.place hp]
    · refine World.tableAt_after hs.sound hwritten.disk hrows' (by simp [hentry]) ?_
      rintro m hm ⟨x, hfind, hfile⟩
      obtain rfl := hs.sound.tree.unique hfile hm
      exact hexport ⟨hne, w₁, s, hopen, hentries ▸ hfind⟩

/-! ## 4. The launch after the bookkeeping -/

/-- **Nothing is launched unless the bookkeeping went through.**  A run launches at most one
command, and does so if and only if its flags were read and ask for one, its store was opened, the
work on the journal ended with that command, and the directory of the command was entered.  When a
recorded compile is launched, the table of its database is the one from before the run with one row
put for each input.  A run whose flags cannot be read leaves the world as it is, and one that
replays or exports keeps every row there was, however it ends: of its own database, and of every
other one that neither lies beside it nor is exported over. -/
theorem launch_after_bookkeeping (hw : w.IsSound) (tokens : List Text)
    (refusal : Option Errno) :
    (∀ l, (run w tokens refusal).2.launch = some l ↔
      ∃ settings cwd w₁ s command, Launches w tokens settings cwd w₁ s command l) ∧
    (∀ {settings cwd w₁ s command l p}, Launches w tokens settings cwd w₁ s command l →
      settings.replay = false → Store.place? w (settings.databasePath w) = some p →
      ∃ driver arguments, compileCommand? settings.driver (split tokens).command =
          some (driver, arguments) ∧ command = ⟨driver, arguments, cwd⟩ ∧
        ∃ parts, parts = classify w₁ (ValueFlags.withExtra settings.valueFlags) cwd arguments ∧
        ∃ files, parts.inputs.map (w₁.resolve cwd) = files.map .ok ∧
          (run w tokens refusal).1.tableAt p = some (Table.putAll
            (fun file => Row.ofRecord ⟨file, driver, parts.flags, cwd⟩) files
            ((w.tableAt p).getD []))) ∧
    (∀ {halt}, Settings.read (split tokens).own = .error halt →
      (run w tokens refusal).1 = w) ∧
    (∀ {settings q rows}, Settings.read (split tokens).own = .ok settings →
      settings.replay = true ∨ settings.exportPath ≠ [] → w.tableAt q = some rows →
      (∀ p, Store.place? w (settings.databasePath w) = some p → q = p ∨ ¬LiesBeside q p) →
      ¬ExportsTo w settings q → (run w tokens refusal).1.tableAt q = some rows) := by
  refine ⟨launch_iff w tokens refusal, ?_, ?_, ?_⟩
  · intro settings cwd w₁ s command l p hl hreplay hp
    exact launches_recorded hw hl hreplay hp refusal
  · intro halt hread
    simp only [run, hread]
    split
    · rfl
    · rfl
    · rfl
    · next heq => exact absurd heq (by simp)
  · intro settings q rows hread hmode hrows hapart hexport
    exact reads_tableAt hw hread hmode hrows hapart hexport refusal

/-- The root with a source file and a database that has a row for another one. -/
def journalWorld : World :=
  World.written [(["main.c"], .file 0), (["x.db"], .file 1)]
    [.text [], .database ⟨1, 1, some [⟨"/old.c", "cc", "-c", "/"⟩]⟩]

/-- A compile that is recorded before it is launched, and a replay that fails and keeps the
journal. -/
theorem launch_after_bookkeeping_journalWorld :
    journalWorld.IsSound ∧
      (∃ settings cwd w₁ s command, Launches journalWorld ["--db=/x.db", "--", "cc", "main.c"]
        settings cwd w₁ s command ⟨["cc", "main.c"], some "/"⟩) ∧
      (run journalWorld ["--db=/x.db", "--replay", "--", "main.c"] none).1.tableAt ["x.db"] =
        some [⟨"/old.c", "cc", "-c", "/"⟩] := by
  have hsound : journalWorld.IsSound := ⟨Disk.isTree_of_entries (by decide) (by decide), rfl⟩
  obtain ⟨hlaunch, -, -, -⟩ :=
    launch_after_bookkeeping hsound ["--db=/x.db", "--", "cc", "main.c"] none
  obtain ⟨-, -, -, hreads⟩ :=
    launch_after_bookkeeping hsound ["--db=/x.db", "--replay", "--", "main.c"] none
  have hread : Settings.read (split ["--db=/x.db", "--replay", "--", "main.c"]).own =
      .ok { database := "/x.db", replay := true } := by
    decide
  have hplace : Store.place? journalWorld "/x.db" = some (["x.db"] : Place) := by
    decide +kernel
  refine ⟨hsound, (hlaunch _).mp (by decide +kernel), hreads hread (.inl rfl) (by decide) ?_ ?_⟩
  · intro p hp
    exact .inl (Option.some.inj (hplace.symm.trans hp))
  · rintro ⟨hne, -⟩
    exact hne rfl

end CommandLine

end CompileJournal
