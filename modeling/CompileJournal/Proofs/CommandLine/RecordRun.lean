import CompileJournal.CommandLine.Run
import CompileJournal.Proofs.Commands.Recording

/-!
# A run that records

A run in record mode opens the journal, records the compile for each of its inputs and hands over
to the compiler.  Two things can keep the compiler from being started: an input that cannot be
recorded, and a directory that cannot be entered.  Neither happens to a run that starts in a
directory whose path is short enough, with a journal that can be written, as long as the recording
does not take away an input itself.

* `Store.IsOpenedBy`: the journal of a run, which can be written;
* `recordsAll_of_inputs`: the inputs of a compile are all recorded;
* `perform_cases`: all that a run does once its flags are read;
* `perform_record`: what such a run does to the journal, and the command it ends with;
* `finish_launch`: the end of a run.
-/

namespace CompileJournal

open CommandLine

/-- The path of the database that a run uses. -/
def Settings.databasePath (settings : Settings) (w : World) : Text :=
  orElse settings.database (defaultDatabase w.environment (homeDirectory w))

namespace Store

/-- The store that a run opens in `w`, where every record can be kept. -/
structure IsOpenedBy (settings : Settings) (w w₁ : World) (s : Store) : Prop where
  opened : openAt w (settings.databasePath w) settings.timeout = (w₁, .ok s)
  writable : ∀ r, (s.put w₁ r).2 = .ok ()

/-- A store in which an empty record can be kept can keep all. -/
theorem IsOpenedBy.of_put {settings : Settings} {w w₁ : World} {s : Store}
    (hopened : openAt w (settings.databasePath w) settings.timeout = (w₁, .ok s))
    (hput : (s.put w₁ ⟨[], [], [], []⟩).2 = .ok ()) : s.IsOpenedBy settings w w₁ :=
  ⟨hopened, fun r => (put_result w₁ s r ⟨[], [], [], []⟩).trans hput⟩

/-- The place of the undo file of an open store. -/
def undo? (w : World) (s : Store) : Option Place := (s.connection? w).bind (·.handle.undo)

variable {settings : Settings} {w w₁ : World} {s : Store}

/-- A store that a run opens is attached to the database where the path leads. -/
theorem IsOpenedBy.attached (h : s.IsOpenedBy settings w w₁) (hw : w.IsSound) :
    ∃ v c, Attached w (settings.databasePath w) v w₁ c ∧ s.IsOpen w₁ c ∧ World.Knows c ∧
      s.connection = w.connections.length ∧
      w₁.table? c.handle = some ((v.table? c.handle).getD []) := by
  have hspec := openAt_spec hw (settings.databasePath w) settings.timeout
  rw [h.opened] at hspec
  rcases hspec with ⟨e, he, -⟩ | ⟨v, c, hattached, hopened⟩
  · exact absurd he (by simp)
  · exact ⟨v, c, hattached, hopened⟩

end Store

namespace CommandLine

variable {settings : Settings} {w w₁ : World} {s : Store}

/-- The inputs that a run finds in its compile command. -/
def inputsOf (w : World) (settings : Settings) (cwd : Text) (command : List Text) : List Text :=
  match compileCommand? settings.driver command with
  | none => []
  | some (_, arguments) =>
    (classify w (ValueFlags.withExtra settings.valueFlags) cwd arguments).inputs

/-- Whether no input but the first lies where the undo file of a store goes. -/
def InputsApart (w : World) (s : Store) (cwd : Text) (inputs : List Text) : Prop :=
  ∀ x ∈ inputs.tail, ∀ q, w.find (Path.join cwd x) = .ok ⟨q, 0⟩ → s.undo? w ≠ some q

/-- A store that can keep its records records all inputs of a compile, if none but the first lies
where its undo file goes. -/
theorem recordsAll_of_inputs {i : Invocation} {c : Connection} (ho : s.IsOpen w c)
    (hput : ∀ r, (s.put w r).2 = .ok ()) (hbase : Path.isAbsolute i.workdir = true)
    {table : ValueFlags} {arguments : List Text}
    (happart : InputsApart w s i.workdir (classify w table i.workdir arguments).inputs) :
    ∃ c', RecordsAll w s c i (classify w table i.workdir arguments).inputs
      (record s i w (classify w table i.workdir arguments).inputs) c' := by
  have hundo : s.undo? w = c.handle.undo := by
    rw [Store.undo?, ho.connection]
    rfl
  refine record_all hbase _ ho hput (fun x hx => ?_) (fun x hx q hq => ?_)
  · obtain ⟨q, -, hq, -⟩ := find_of_mem_inputs hx
    exact ⟨q, hq⟩
  · exact hundo ▸ happart x hx q hq

theorem currentDirectory_eq (hlost : w.cwd.lost = 0) :
    w.currentDirectory = .ok w.cwd.place.text := by
  rw [World.currentDirectory, if_pos hlost]

/-- A current directory that has a path is still there. -/
theorem cwd_of_currentDirectory {cwd : Text} (h : w.currentDirectory = .ok cwd) :
    w.cwd.lost = 0 ∧ w.cwd.place.text = cwd := by
  unfold World.currentDirectory at h
  split at h
  · next hlost => exact ⟨hlost, Except.ok.inj h⟩
  · exact absurd h (by simp)

/-- A run with an open store does its work, closes the store and reports. -/
theorem perform_of_opened {cwd : Text} (hcwd : w.currentDirectory = .ok cwd)
    (hopened : Store.openAt w (settings.databasePath w) settings.timeout = (w₁, .ok s))
    (command : List Text) (refusal : Option Errno) :
    perform w settings command refusal =
      (s.close (prepare w₁ s settings cwd command).world, conclude settings refusal
        { prepare w₁ s settings cwd command with
          world := s.close (prepare w₁ s settings cwd command).world }) := by
  have hpath : Store.openAt w (orElse settings.database
      (defaultDatabase w.environment (homeDirectory w))) settings.timeout = (w₁, .ok s) := hopened
  simp only [perform, hcwd, hpath]

theorem perform_of_refused {cwd : Text} {e : Failure} (hcwd : w.currentDirectory = .ok cwd)
    (hopened : Store.openAt w (settings.databasePath w) settings.timeout = (w₁, .error e))
    (command : List Text) (refusal : Option Errno) :
    perform w settings command refusal = (w₁, failed [] e) := by
  have hpath : Store.openAt w (orElse settings.database
      (defaultDatabase w.environment (homeDirectory w))) settings.timeout = (w₁, .error e) :=
    hopened
  simp only [perform, hcwd, hpath]

/-- A run that has read its flags lacks its directory, cannot open its store, or works on it. -/
theorem perform_cases (w : World) (settings : Settings) (command : List Text)
    (refusal : Option Errno) :
    (∃ e, w.currentDirectory = .error e ∧
      perform w settings command refusal = (w, { escape := some (.failure e) })) ∨
    (∃ cwd w₁ e, w.currentDirectory = .ok cwd ∧
      Store.openAt w (settings.databasePath w) settings.timeout = (w₁, .error e) ∧
      perform w settings command refusal = (w₁, failed [] e)) ∨
    ∃ cwd w₁ s, w.currentDirectory = .ok cwd ∧
      Store.openAt w (settings.databasePath w) settings.timeout = (w₁, .ok s) ∧
      perform w settings command refusal =
        (s.close (prepare w₁ s settings cwd command).world, conclude settings refusal
          { prepare w₁ s settings cwd command with
            world := s.close (prepare w₁ s settings cwd command).world }) := by
  cases hcwd : w.currentDirectory with
  | error e => exact .inl ⟨e, rfl, by simp only [perform, hcwd]⟩
  | ok cwd =>
  cases hopen : Store.openAt w (settings.databasePath w) settings.timeout with
  | mk w₁ r =>
  cases r with
  | error e =>
    exact .inr (.inl ⟨cwd, w₁, e, rfl, rfl, perform_of_refused hcwd hopen command refusal⟩)
  | ok s =>
    exact .inr (.inr ⟨cwd, w₁, s, rfl, rfl, perform_of_opened hcwd hopen command refusal⟩)

/-- A run that does not get to its work leaves the world as it is. -/
theorem run_cases (w : World) (tokens : List Text) (refusal : Option Errno) :
    (run w tokens refusal).1 = w ∨
      ∃ settings, Settings.read (split tokens).own = .ok settings ∧
        (run w tokens refusal).1 = (perform w settings (split tokens).command refusal).1 := by
  cases hread : Settings.read (split tokens).own with
  | error halt =>
    refine .inl ?_
    cases halt <;> simp only [run, hread]
  | ok settings =>
    simp only [run, hread]
    split
    · exact .inl rfl
    · exact .inr ⟨settings, rfl, rfl⟩

/-- **A run in record mode records its compile for every input**, and ends with the command it was
given. -/
theorem perform_record (hw : w.IsSound) (hlost : w.cwd.lost = 0) {driver : Text}
    {arguments command : List Text} {i : Invocation} {inputs : List Text}
    (hexport : settings.exportPath = []) (hreplay : settings.replay = false)
    (hopened : s.IsOpenedBy settings w w₁)
    (hcommand : compileCommand? settings.driver command = some (driver, arguments))
    (hi : i = ⟨driver, (classify w₁ (ValueFlags.withExtra settings.valueFlags) w.cwd.place.text
      arguments).flags, w.cwd.place.text⟩)
    (hinputs : inputs = inputsOf w₁ settings w.cwd.place.text command)
    (hapart : InputsApart w₁ s w.cwd.place.text inputs) (refusal : Option Errno) :
    ∃ c c', s.IsOpen w₁ c ∧ RecordsAll w₁ s c i inputs (record s i w₁ inputs) c' ∧
      perform w settings command refusal =
        (s.close (record s i w₁ inputs).world,
          finish (s.close (record s i w₁ inputs).world) settings (record s i w₁ inputs).events
            refusal ⟨driver, arguments, w.cwd.place.text⟩) := by
  obtain ⟨v, c, hattached, hopen, -, -⟩ := hopened.attached hw
  have hinputs' : inputs = (classify w₁ (ValueFlags.withExtra settings.valueFlags)
      w.cwd.place.text arguments).inputs := by
    rw [hinputs, inputsOf, hcommand]
  have hwork : i.workdir = w.cwd.place.text := by rw [hi]
  have hbase : Path.isAbsolute i.workdir = true := hwork ▸ isAbsolute_text w.cwd.place
  obtain ⟨c', hall⟩ : ∃ c', RecordsAll w₁ s c i inputs (record s i w₁ inputs) c' := by
    rw [← hwork] at hinputs' hapart
    rw [hinputs'] at hapart ⊢
    exact recordsAll_of_inputs hopen hopened.writable hbase hapart
  refine ⟨c, c', hopen, hall, ?_⟩
  obtain ⟨files, hfiles, -, -⟩ := hall.files
  have hprepare : prepare w₁ s settings w.cwd.place.text command =
      ⟨(record s i w₁ inputs).world, (record s i w₁ inputs).events,
        .ok (.launch ⟨driver, arguments, w.cwd.place.text⟩)⟩ := by
    rw [prepare, if_neg (not_not.mpr hexport), hreplay, if_neg (by simp), prepareRecord, hcommand]
    simp only
    rw [← hi, ← hinputs', hfiles]
    rfl
  rw [perform_of_opened (currentDirectory_eq hlost) hopened.opened, hprepare]
  rfl

/-- **A command is launched in its directory**, whatever the system answers. -/
theorem finish_launch (hw : w.IsSound) {p : Place} (hdir : w.disk.entryAt p = some .directory)
    (hshort : Text.byteCount p.text ≤ Disk.maxPath) (hdry : settings.dryRun = false)
    {c : Command} (hc : c.workdir = p.text) (events : List Event) (refusal : Option Errno) :
    (finish w settings events refusal c).launch = some ⟨c.argv, some p.text⟩ := by
  have henter : enter w p.text = .ok { w with cwd := ⟨p, 0⟩ } := by
    rw [enter, if_neg (text_ne_nil p), World.changeDirectory_text hw hdir hshort]
  have hlaunch : (replaceProcess w c.argv p.text refusal).launch =
      some ⟨c.argv, some p.text⟩ := by
    rw [replaceProcess, reportedDirectory, if_neg (text_ne_nil p), henter]
    rfl
  rw [finish, if_neg (by simp [hdry]), hc]
  simp only
  split
  · exact hlaunch
  · split <;> exact hlaunch

end CommandLine

end CompileJournal
