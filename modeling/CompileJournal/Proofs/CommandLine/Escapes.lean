import CompileJournal.Proofs.Commands.Opened
import CompileJournal.Proofs.Commands.Refusals

/-!
# How a run ends

A run asks for its directory, opens its journal and works on it, and launches a command.  Each of
these steps can fail, and mostly the run then logs one line and ends with exit status 1.  Some
failures leave the run without that.  Their causes are few: a current directory that was removed, a
path with the character with code 0, too many missing directories above the database, and a row of
the database that is no record.  Nothing else gets out, whatever was done to the database, the locks
and the disk from outside.

A store that has just been opened gives the rows that were there before the run, so the row that is
no record can be named.

* `FailsIn`, `Uncaught`: the failures of a run, and those that it does not report;
* `opening_error`, `prepare_error`, `launch_error`: what the steps of a run fail with;
* `run_ends`: how every run ends.
-/

namespace CompileJournal

namespace CommandLine

/-! ## 1. The failures of a run -/

/-- The steps of a run that can fail. -/
inductive Step where
  /-- Asking for the current directory. -/
  | start
  /-- Opening the journal and working on it. -/
  | journal
  /-- Launching a program. -/
  | launch (program : Text)
  deriving DecidableEq, Repr

/-- The line that is logged for a failure in a step. -/
def Step.line : Step → Failure → Event
  | .launch program, e => .notExecuted program e
  | .start, e | .journal, e => .failed e

variable {w w₁ w' : World} {s : Store} {settings : Settings} {cwd : Text} {command : List Text}
  {refusal : Option Errno} {e : Failure} {step : Step} {tokens : List Text}

/-- A run with the given settings fails in a step, and no step before it has failed. -/
inductive FailsIn (w : World) (settings : Settings) (command : List Text)
    (refusal : Option Errno) : Step → Failure → Prop where
  | start {e : Failure} : w.currentDirectory = .error e →
      FailsIn w settings command refusal .start e
  | opening {cwd : Text} {w₁ : World} {e : Failure} : w.currentDirectory = .ok cwd →
      Store.openAt w (settings.databasePath w) settings.timeout = (w₁, .error e) →
      FailsIn w settings command refusal .journal e
  | work {cwd : Text} {w₁ : World} {s : Store} {e : Failure} : w.currentDirectory = .ok cwd →
      Store.openAt w (settings.databasePath w) settings.timeout = (w₁, .ok s) →
      (prepare w₁ s settings cwd command).result = .error e →
      FailsIn w settings command refusal .journal e
  | launch {cwd : Text} {w₁ : World} {s : Store} {c : Command} {e : Failure} :
      w.currentDirectory = .ok cwd →
      Store.openAt w (settings.databasePath w) settings.timeout = (w₁, .ok s) →
      (prepare w₁ s settings cwd command).result = .ok (.launch c) → settings.dryRun = false →
      (replaceProcess (s.close (prepare w₁ s settings cwd command).world) c.argv c.workdir
        refusal).result = .error e →
      FailsIn w settings command refusal (.launch c.program) e

/-- The row that a run in replay mode looks up: that of the file which its first token leads to once
the store is open. -/
def LooksUp (w : World) (settings : Settings) (command : List Text) (row : Row) : Prop :=
  settings.exportPath = [] ∧ settings.replay = true ∧ ∃ cwd input extra file,
    command = input :: extra ∧ w.currentDirectory = .ok cwd ∧
    (Store.openAt w (settings.databasePath w) settings.timeout).1.resolve cwd input = .ok file ∧
    (Store.rowsAt w (settings.databasePath w)).get? file = some row

/-- The failures that a run does not report, in the steps where they occur and with their
causes. -/
inductive Uncaught (w : World) (settings : Settings) (command : List Text) :
    Step → Failure → Prop where
  /-- The current directory was removed. -/
  | removed : w.cwd.lost ≠ 0 → Uncaught w settings command .start (.system .notFound none)
  /-- The path of the database holds the character with code 0. -/
  | database : Text.nul ∈ settings.databasePath w → Uncaught w settings command .journal .nulInPath
  /-- Too many directories are missing above the database. -/
  | deep {l : Path.Lexical} : Store.lexicalPath w (settings.databasePath w) = .ok l →
      World.maxMissingDepth < w.missingDepth l.parent.doubled l.parent.inner →
      Uncaught w settings command .journal .tooDeep
  /-- The path of the export holds the character with code 0. -/
  | exported : Text.nul ∈ settings.exportPath → Uncaught w settings command .journal .nulInPath
  /-- One of the rows to be exported is no record. -/
  | listed {row : Row} {d : Words.DecodeError} : settings.exportPath ≠ [] →
      row ∈ Store.rowsAt w (settings.databasePath w) → row.record = .error d →
      Uncaught w settings command .journal (.undecodable d)
  /-- The row to be replayed is no record. -/
  | replayed {row : Row} {d : Words.DecodeError} : LooksUp w settings command row →
      row.record = .error d → Uncaught w settings command .journal (.undecodable d)
  /-- The directory of the row to be replayed holds the character with code 0. -/
  | directory {row : Row} {program : Text} : LooksUp w settings command row →
      Text.nul ∈ row.workdir → Uncaught w settings command (.launch program) .nulInPath

/-- What opening the journal fails with. -/
theorem opening_error (hw : w.IsSound)
    (hopen : Store.openAt w (settings.databasePath w) settings.timeout = (w₁, .error e)) :
    e.isReported = true ∨ Uncaught w settings command .journal e := by
  rcases Store.openAt_error hw (congrArg Prod.snd hopen) with hconcerns | ⟨rfl, l, hl, hdeep⟩
  · cases hconcerns with
    | reported h => exact .inl h
    | nul hnul => exact .inr (.database hnul)
  · exact .inr (.deep hl hdeep)

/-- What the work on the journal fails with. -/
theorem prepare_error (hw : w.IsSound) (hcwd : w.currentDirectory = .ok cwd)
    (hopen : Store.openAt w (settings.databasePath w) settings.timeout = (w₁, .ok s))
    (h : (prepare w₁ s settings cwd command).result = .error e) :
    e.isReported = true ∨ Uncaught w settings command .journal e := by
  unfold prepare at h
  split at h
  · next hexport =>
    rcases exportTo_error (map_eq_error.mp h) with hconcerns | ⟨rows, row, d, hread, hrow, hd, rfl⟩
    · cases hconcerns with
      | reported h => exact .inl h
      | nul hnul => exact .inr (.exported hnul)
    · rw [Store.rows_of_opened hw hopen hread] at hrow
      exact .inr (.listed hexport hrow hd)
  next hexport =>
  split at h
  · next hreplay =>
    cases command with
    | nil => exact absurd h (by simp [prepareReplay])
    | cons input extra =>
    simp only [prepareReplay] at h
    rcases replay_error (map_eq_error.mp h) with
      hreported | ⟨file, rows, row, d, hfile, hread, hrow, hd, rfl⟩
    · exact .inl hreported
    · rw [Store.rows_of_opened hw hopen hread] at hrow
      refine .inr (.replayed ⟨not_not.mp hexport, hreplay, cwd, input, extra, file, rfl, hcwd, ?_,
        hrow⟩ hd)
      rw [hopen]
      exact hfile
  · unfold prepareRecord at h
    split at h
    · exact absurd h (by simp)
    · exact .inl (record_error (map_eq_error.mp h))

/-- The command that the work on the journal ends with has the current directory, or that of the row
that was looked up. -/
theorem workdir_of_prepared (hw : w.IsSound) (hcwd : w.currentDirectory = .ok cwd)
    (hopen : Store.openAt w (settings.databasePath w) settings.timeout = (w₁, .ok s)) {c : Command}
    (h : (prepare w₁ s settings cwd command).result = .ok (.launch c)) :
    c.workdir = cwd ∨ ∃ row, LooksUp w settings command row ∧ c.workdir = row.workdir := by
  have hexport := exportPath_of_built h
  rw [prepare, if_neg (not_not.mpr hexport)] at h
  split at h
  · next hreplay =>
    cases command with
    | nil => exact absurd h (by simp [prepareReplay])
    | cons input extra =>
    simp only [prepareReplay] at h
    obtain ⟨c', hresult, hc⟩ := map_eq_ok.mp h
    obtain rfl := Prepared.launch.inj hc
    obtain ⟨file, rows, row, hfile, hread, hrow, hworkdir⟩ := replay_ok hresult
    rw [Store.rows_of_opened hw hopen hread] at hrow
    refine .inr ⟨row, ⟨hexport, hreplay, cwd, input, extra, file, rfl, hcwd, ?_, hrow⟩, hworkdir⟩
    rw [hopen]
    exact hfile
  · unfold prepareRecord at h
    split at h
    · exact absurd h (by simp)
    · obtain ⟨files, -, hc⟩ := map_eq_ok.mp h
      exact .inl (congrArg Command.workdir (Prepared.launch.inj hc)).symm

/-- What the launch of a command fails with. -/
theorem launch_error (hw : w.IsSound) (hcwd : w.currentDirectory = .ok cwd)
    (hopen : Store.openAt w (settings.databasePath w) settings.timeout = (w₁, .ok s)) {c : Command}
    (hprepared : (prepare w₁ s settings cwd command).result = .ok (.launch c))
    (h : (replaceProcess w' c.argv c.workdir refusal).result = .error e) :
    (∃ reason about, e = .system reason about) ∨
      Uncaught w settings command (.launch c.program) e := by
  rcases replaceProcess_error (by simp [Command.argv]) h with hsystem | ⟨rfl, hnul⟩
  · exact .inl hsystem
  rcases workdir_of_prepared hw hcwd hopen hprepared with heq | ⟨row, hrow, heq⟩
  · -- The path of the current directory is made of names, which can be written.
    refine absurd hnul ?_
    rw [heq, ← (cwd_of_currentDirectory hcwd).2]
    exact no_nul_text fun m hm => (hw.tree.clean hw.cwd m hm).no_nul
  · exact .inr (.directory hrow (heq ▸ hnul))

/-- The work on the journal reports what it does, and no failure. -/
theorem prepare_level {x : Event} (h : x ∈ (prepare w s settings cwd command).events) :
    x.level ≠ .error := by
  unfold prepare at h
  split at h
  · exact exportTo_level h
  split at h
  · unfold prepareReplay at h
    split at h
    · exact absurd h (by simp)
    · exact replay_level h
  · unfold prepareRecord at h
    split at h
    · exact absurd h (by simp)
    · exact record_level h

/-! ## 2. Reports -/

/-- The lines of a report at the level of errors. -/
def Report.errors (report : Report) : List Event := report.events.filter (·.level = .error)

/-- The report of a run that a failure has ended with a line of the log, and with no other one at the
level of errors.  At the lowest verbosities not even this line is shown. -/
structure Report.Tells (report : Report) (verbosity : Int) (line : Event) : Prop where
  exit : report.exit = some 1
  escape : report.escape = none
  complaint : report.complaint = none
  errors : report.errors = if Level.error.threshold ≤ verbosity then [line] else []

/-- The report of a run that a failure has ended without a line of the log. -/
structure Report.Drops (report : Report) (e : Failure) : Prop where
  exit : report.exit = none
  escape : report.escape = some (.failure e)
  errors : report.errors = []

/-- The report of a run that no failure has ended: there was nothing to launch, or the process was
replaced, or something is wrong with the way the program was called. -/
structure Report.EndsWell (report : Report) : Prop where
  escape : report.escape = none
  errors : report.errors = []
  ends : report.exit = some 0 ∨ (report.exit = none ∧ report.launch.isSome) ∨
    (report.exit = some 1 ∧ report.complaint.isSome)

variable {events : List Event} {verbosity : Int} {c : Command}

theorem errors_of_level (hlevel : ∀ x ∈ events, x.level ≠ .error) :
    (events.filter (Event.isShown verbosity)).filter (·.level = .error) = [] := by
  refine List.filter_eq_nil_iff.mpr fun x hx => ?_
  simpa using hlevel x (List.mem_filter.mp hx).1

theorem errors_of_line (hlevel : ∀ x ∈ events, x.level ≠ .error) {line : Event}
    (hline : line.level = .error) :
    ((events ++ [line]).filter (Event.isShown verbosity)).filter (·.level = .error) =
      if Level.error.threshold ≤ verbosity then [line] else [] := by
  rw [List.filter_append, List.filter_append, errors_of_level hlevel, List.nil_append]
  by_cases hshown : Level.error.threshold ≤ verbosity <;> simp [Event.isShown, hline, hshown]

theorem failed_tells (hlevel : ∀ x ∈ events, x.level ≠ .error) (h : e.isReported = true) :
    ((failed events e).shown verbosity).Tells verbosity (.failed e) := by
  rw [failed, if_pos h]
  exact ⟨rfl, rfl, rfl, errors_of_line hlevel rfl⟩

theorem failed_drops (hlevel : ∀ x ∈ events, x.level ≠ .error) (h : e.isReported = false) :
    ((failed events e).shown verbosity).Drops e := by
  rw [failed, if_neg (by simp [h])]
  exact ⟨rfl, rfl, errors_of_level hlevel⟩

/-- The end of a run that launches a command, with what was reported until then. -/
theorem finish_level (hlevel : ∀ x ∈ events, x.level ≠ .error) :
    ∀ x ∈ events ++ (replaceProcess w c.argv c.workdir refusal).events, x.level ≠ .error :=
  fun x hx => (List.mem_append.mp hx).elim (hlevel x) replaceProcess_level

theorem finish_tells (hdry : settings.dryRun = false) (hlevel : ∀ x ∈ events, x.level ≠ .error)
    {reason : Errno} {about : Option Text}
    (h : (replaceProcess w c.argv c.workdir refusal).result = .error (.system reason about)) :
    ((finish w settings events refusal c).shown verbosity).Tells verbosity
      (.notExecuted c.program (.system reason about)) := by
  rw [finish, if_neg (by simp [hdry])]
  simp only [h]
  exact ⟨rfl, rfl, rfl, errors_of_line (finish_level hlevel) rfl⟩

theorem finish_drops (hdry : settings.dryRun = false) (hlevel : ∀ x ∈ events, x.level ≠ .error)
    (h : (replaceProcess w c.argv c.workdir refusal).result = .error .nulInPath) :
    ((finish w settings events refusal c).shown verbosity).Drops .nulInPath := by
  rw [finish, if_neg (by simp [hdry])]
  simp only [h]
  exact ⟨rfl, rfl, errors_of_level (finish_level hlevel)⟩

theorem finish_endsWell (hlevel : ∀ x ∈ events, x.level ≠ .error)
    (h : settings.dryRun = false → ∀ e,
      (replaceProcess w c.argv c.workdir refusal).result ≠ .error e) :
    ((finish w settings events refusal c).shown verbosity).EndsWell := by
  unfold finish
  simp only
  split
  · exact ⟨rfl, errors_of_level hlevel, .inl rfl⟩
  next hdry =>
  cases hresult : (replaceProcess w c.argv c.workdir refusal).result with
  | error e => exact absurd hresult (h (by simpa using hdry) e)
  | ok status =>
    obtain ⟨rfl, hlaunch⟩ := replaceProcess_ok hresult
    exact ⟨rfl, errors_of_level (finish_level hlevel), .inr (.inl ⟨rfl, hlaunch⟩)⟩

/-! ## 3. All runs -/

/-- What a run does not report in its work on the journal is of a kind that is never reported. -/
theorem Uncaught.isReported_eq_false (h : Uncaught w settings command .journal e) :
    e.isReported = false := by
  cases h <;> rfl

/-- A failure that is not reported ends the run without a line of the log. -/
theorem FailsIn.drops (hf : FailsIn w settings command refusal step e)
    (hu : Uncaught w settings command step e) (verbosity : Int) :
    ((perform w settings command refusal).2.shown verbosity).Drops e := by
  cases hf with
  | start hcwd =>
    simp only [perform, hcwd]
    exact ⟨rfl, rfl, rfl⟩
  | opening hcwd hopen =>
    rw [perform_of_refused hcwd hopen]
    exact failed_drops (by simp) hu.isReported_eq_false
  | work hcwd hopen herror =>
    rw [perform_of_opened hcwd hopen, conclude]
    simp only [herror]
    exact failed_drops (fun x hx => prepare_level hx) hu.isReported_eq_false
  | launch hcwd hopen hprepared hdry herror =>
    rw [perform_of_opened hcwd hopen, conclude]
    simp only [hprepared]
    cases hu with
    | directory hrow hnul => exact finish_drops hdry (fun x hx => prepare_level hx) herror

/-- Every other failure is told. -/
theorem FailsIn.tells (hw : w.IsSound) (hf : FailsIn w settings command refusal step e)
    (hu : ¬Uncaught w settings command step e) (verbosity : Int) :
    ((perform w settings command refusal).2.shown verbosity).Tells verbosity (step.line e) := by
  cases hf with
  | start hcwd =>
    obtain ⟨hlost, rfl⟩ := World.currentDirectory_error hcwd
    exact absurd (.removed hlost) hu
  | opening hcwd hopen =>
    rw [perform_of_refused hcwd hopen]
    exact failed_tells (by simp) ((opening_error hw hopen).resolve_right hu)
  | work hcwd hopen herror =>
    rw [perform_of_opened hcwd hopen, conclude]
    simp only [herror]
    exact failed_tells (fun x hx => prepare_level hx)
      ((prepare_error hw hcwd hopen herror).resolve_right hu)
  | launch hcwd hopen hprepared hdry herror =>
    rw [perform_of_opened hcwd hopen, conclude]
    simp only [hprepared]
    obtain ⟨reason, about, rfl⟩ :=
      (launch_error hw hcwd hopen hprepared herror).resolve_right hu
    exact finish_tells hdry (fun x hx => prepare_level hx) herror

/-- A run that fails in no step ends well. -/
theorem endsWell_of_not_fails (hnone : ∀ step e, ¬FailsIn w settings command refusal step e)
    (verbosity : Int) : ((perform w settings command refusal).2.shown verbosity).EndsWell := by
  rcases perform_cases w settings command refusal with
    ⟨e, hcwd, -⟩ | ⟨cwd, w₁, e, hcwd, hopen, -⟩ | ⟨cwd, w₁, s, hcwd, hopen, hperform⟩
  · exact absurd (.start hcwd) (hnone _ e)
  · exact absurd (.opening hcwd hopen) (hnone _ e)
  have hlevel : ∀ x ∈ (prepare w₁ s settings cwd command).events, x.level ≠ .error :=
    fun x hx => prepare_level hx
  rw [hperform, conclude]
  cases hresult : (prepare w₁ s settings cwd command).result with
  | error e => exact absurd (.work hcwd hopen hresult) (hnone _ e)
  | ok prepared =>
  cases prepared with
  | exported => exact ⟨rfl, errors_of_level hlevel, .inl rfl⟩
  | complaint text => exact ⟨rfl, errors_of_level hlevel, .inr (.inr ⟨rfl, rfl⟩)⟩
  | launch c =>
    exact finish_endsWell hlevel fun hdry e he =>
      hnone _ e (.launch hcwd hopen hresult hdry he)

/-- **How a run ends.**  A run that has read its flags and is to do its work ends well if no step of
it fails: with exit status 0, with a launch, or with a complaint about the way it was called.  If a
step fails, then either the failure is one of the few that are not reported, and it leaves the run
as an error of its own without exit status and without a line of the log; or the run ends with exit
status 1 and the one line that tells the failure.  This holds in every world, whatever was done to
its disk, its locks and the rows of its databases. -/
theorem run_ends (hw : w.IsSound) (hread : Settings.read (split tokens).own = .ok settings)
    (hcheck : settings.onlyCheckArguments = false) (refusal : Option Errno) :
    (∀ {step e}, FailsIn w settings (split tokens).command refusal step e →
      (Uncaught w settings (split tokens).command step e →
        (run w tokens refusal).2.Drops e) ∧
      (¬Uncaught w settings (split tokens).command step e →
        (run w tokens refusal).2.Tells settings.shownVerbosity (step.line e))) ∧
    ((∀ step e, ¬FailsIn w settings (split tokens).command refusal step e) →
      (run w tokens refusal).2.EndsWell) := by
  rw [run_of_split rfl hread hcheck]
  exact ⟨fun hf => ⟨fun hu => hf.drops hu _, fun hu => hf.tells hw hu _⟩,
    fun hnone => endsWell_of_not_fails hnone _⟩

/-- The root with a source file and a database in which the row of this file ends between quotes. -/
def spoiledWorld : World :=
  World.written [(["main.c"], .file 0), (["x.db"], .file 1)]
    [.text [], .database ⟨1, 1, some [⟨"/main.c", "cc", "'", "/"⟩]⟩]

/-- The command line that replays a file from the database in the root. -/
def replayTokens (input : Text) : List Text := ["--db=/x.db", "--replay", "--", input]

/-- What `replayTokens` sets. -/
def replaySettings : Settings := { database := "/x.db", replay := true }

theorem spoiledWorld_isSound : spoiledWorld.IsSound :=
  ⟨Disk.isTree_of_entries (by decide) (by decide), rfl⟩

/-- A row that is no record is lost, a file that is missing is told. -/
theorem run_ends_spoiledWorld :
    (spoiledWorld.IsSound ∧
      Settings.read (split (replayTokens "main.c")).own = .ok replaySettings ∧
      Settings.read (split (replayTokens "other.c")).own = .ok replaySettings) ∧
    (run spoiledWorld (replayTokens "main.c") none).2.Drops
      (.undecodable .noClosingQuotation) ∧
    (run spoiledWorld (replayTokens "other.c") none).2.Tells 0
      (.failed (.unresolved "other.c")) := by
  have hmain : Settings.read (split (replayTokens "main.c")).own = .ok replaySettings := by decide
  have hother : Settings.read (split (replayTokens "other.c")).own = .ok replaySettings := by decide
  have hcwd : spoiledWorld.currentDirectory = .ok "/".toList := by decide
  have hopen : Store.openAt spoiledWorld (replaySettings.databasePath spoiledWorld)
      replaySettings.timeout = ((Store.openAt spoiledWorld "/x.db" firstStore.timeout).1,
        .ok firstStore) := by
    decide
  refine ⟨⟨spoiledWorld_isSound, hmain, hother⟩, ?_, ?_⟩
  · have hfails : FailsIn spoiledWorld replaySettings (split (replayTokens "main.c")).command none
        .journal (.undecodable .noClosingQuotation) :=
      .work hcwd hopen (by decide)
    have hrow : LooksUp spoiledWorld replaySettings (split (replayTokens "main.c")).command
        ⟨"/main.c", "cc", "'", "/"⟩ :=
      ⟨rfl, rfl, "/", "main.c", [], "/main.c", by decide, hcwd, by decide, by decide⟩
    exact ((run_ends spoiledWorld_isSound hmain rfl none).1 hfails).1 (.replayed hrow (by decide))
  · have hfails : FailsIn spoiledWorld replaySettings (split (replayTokens "other.c")).command none
        .journal (.unresolved "other.c") :=
      .work hcwd hopen (by decide)
    refine ((run_ends spoiledWorld_isSound hother rfl none).1 hfails).2 ?_
    intro h
    cases h

/-- **Not every failure becomes an exit status.**  A row that is no record gets out of a replay and
of an export, and so does a current directory that was removed. -/
theorem failure_escapes :
    ((run spoiledWorld (replayTokens "main.c") none).2.exit = none ∧
      (run spoiledWorld (replayTokens "main.c") none).2.escape =
        some (.failure (.undecodable .noClosingQuotation))) ∧
    ((run spoiledWorld ["--db=/x.db", "--export_compile_commands=/out.json"] none).2.exit = none ∧
      (run spoiledWorld ["--db=/x.db", "--export_compile_commands=/out.json"] none).2.escape =
        some (.failure (.undecodable .noClosingQuotation))) ∧
    (run lostWorld ["--db=/x.db", "--", "cc", "main.c"] none).2.exit = none ∧
      (run lostWorld ["--db=/x.db", "--", "cc", "main.c"] none).2.escape =
        some (.failure (.system .notFound none)) := by
  decide +kernel

end CommandLine

end CompileJournal
