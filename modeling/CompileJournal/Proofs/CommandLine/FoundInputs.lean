import CompileJournal.Proofs.Commands.Refusals

/-!
# What is told to be an input is found again

The classifier tells an input by its extension and by a look at the file behind it; the recorder
looks whether there is anything, and then puts the real path together.  The two looks are at the
same place, so an input that the one has told is never missed by the other as long as nothing
happens in between.

Something can happen in between, though, and it is the recorder that does it: the first record that
is kept takes away what lies where the undo file of the database goes.  A later input that is this
file is gone when its turn comes.

* `exists_file_of_mem_inputs`: an input resolves to the path of a regular file;
* `record_ne_unresolved`: recording the inputs of a compile misses none of them;
* `record_inputs`: what it leaves, and what a run in record mode never reports;
* `record_inputs_fails`: a later input where the undo file goes.
-/

namespace CompileJournal

open CommandLine

variable {w w₀ : World} {s : Store} {c : Connection} {workdir driver : Text} {table : ValueFlags}
  {arguments : List Text} {parts : Classified}

/-! ## 1. Inputs -/

/-- An input of a compile resolves to the path of a regular file. -/
theorem exists_file_of_mem_inputs (hw : w.IsSound) (hshort : HasShortPaths w)
    (hworkdir : Path.isAbsolute workdir = true) {x : Text}
    (hx : x ∈ (classify w table workdir arguments).inputs) :
    ∃ file, w.resolve workdir x = .ok file ∧ w.isFile file = true := by
  obtain ⟨q, n, hfind, hq⟩ := find_of_mem_inputs hx
  refine ⟨q.text, World.resolve_text hshort.links hworkdir hfind, ?_⟩
  exact World.isFile_iff.mpr ⟨q, n, World.find_text hw hq (by simp) (hshort hq), hq⟩

/-- **Recording the inputs of a compile misses none of them**, whether or not the store can keep
its records. -/
theorem record_ne_unresolved {i : Invocation} (ho : s.IsOpen w c)
    (hbase : Path.isAbsolute i.workdir = true)
    (happart : InputsApart w s i.workdir (classify w table i.workdir arguments).inputs)
    (path : Text) :
    (record s i w (classify w table i.workdir arguments).inputs).result ≠
      .error (.unresolved path) := by
  by_cases hput : ∀ r, (s.put w r).2 = .ok ()
  · obtain ⟨c', hall⟩ := recordsAll_of_inputs ho hput hbase happart
    obtain ⟨files, hok, -⟩ := hall.files
    rw [hok]
    simp
  -- A store that refuses one record refuses all, so recording ends with the first input.
  obtain ⟨r, hr⟩ := not_forall.mp hput
  cases hinputs : (classify w table i.workdir arguments).inputs with
  | nil => simp [record]
  | cons x rest =>
    have hx : x ∈ (classify w table i.workdir arguments).inputs := hinputs ▸ List.mem_cons_self
    obtain ⟨q, -, hq, -⟩ := find_of_mem_inputs hx
    obtain ⟨file, hfile⟩ := World.resolve_ok hbase hq
    cases hstep : s.put w (i.recordFor file) with
    | mk w' result =>
    cases result with
    | ok u => exact absurd ((Store.put_result w s r _).trans (congrArg Prod.snd hstep)) hr
    | error e =>
      obtain ⟨fault, rfl⟩ := Store.use_error (congrArg Prod.snd hstep)
      simp only [record, recordInput, hfile, hstep]
      exact fun h => Store.failure_ne_unresolved s fault path (Except.error.inj h)

/-! ## 2. Runs in record mode -/

/-- A run that records ends with the failure of its work or with a launch, and reports no path that
could not be resolved if its work did not end so. -/
theorem unresolved_not_mem_conclude {settings : Settings} {refusal : Option Errno}
    {o : Outcome Prepared} {path : Text} (hlevel : ∀ x ∈ o.events, x.level ≠ .error)
    (hresult : o.result ≠ .error (.unresolved path)) :
    .failed (.unresolved path) ∉ (conclude settings refusal o).events := by
  have hwork : .failed (.unresolved path) ∉ o.events := fun h => hlevel _ h rfl
  unfold conclude
  split
  · next e he =>
    unfold failed
    split
    · intro h
      rcases List.mem_append.mp h with h | h
      · exact hwork h
      · have heq := List.mem_singleton.mp h
        rw [Event.failed.injEq] at heq
        exact hresult (heq ▸ he)
    · exact hwork
  · exact hwork
  · exact hwork
  · next command _ =>
    have hlaunch : .failed (.unresolved path) ∉
        (replaceProcess o.world command.argv command.workdir refusal).events :=
      fun h => replaceProcess_level h rfl
    unfold finish
    simp only
    repeat' split
    all_goals simp [hwork, hlaunch]

/-- **What is told to be an input can be recorded.**  Seen from an absolute directory, every input
of a compile resolves to the path of a regular file.  So recording these inputs in the world where
they were told never fails because one of them is missing.  A store that can keep records gives one
path for each input in their order, and the rows are those from before with the rows of these files
set.  A run in record mode never reports such a failure, whatever it launches and however that
ends.  No input but the first may lie where the undo file of the database goes. -/
theorem record_inputs (hshort : HasShortPaths w) (ho : s.IsOpen w c)
    (hworkdir : Path.isAbsolute workdir = true)
    (hparts : classify w table workdir arguments = parts)
    (happart : InputsApart w s workdir parts.inputs) (driver : Text) :
    (∀ x ∈ parts.inputs, ∃ file, w.resolve workdir x = .ok file ∧ w.isFile file = true) ∧
    (∀ path, (record s ⟨driver, parts.flags, workdir⟩ w parts.inputs).result ≠
      .error (.unresolved path)) ∧
    ((∀ r, (s.put w r).2 = .ok ()) → ∃ files rows rows',
      (record s ⟨driver, parts.flags, workdir⟩ w parts.inputs).result = .ok files ∧
      parts.inputs.map (w.resolve workdir) = files.map .ok ∧
      w.table? c.handle = some rows ∧
      (record s ⟨driver, parts.flags, workdir⟩ w parts.inputs).world.table? c.handle =
        some rows' ∧
      (Table.IsSorted rows → Table.IsSorted rows') ∧
      ∀ file, rows'.get? file = if file ∈ files then
        some (Row.ofRecord ⟨file, driver, parts.flags, workdir⟩) else rows.get? file) ∧
    ∀ {w₀ settings command}, w₀.currentDirectory = .ok workdir →
      Store.openAt w₀ (settings.databasePath w₀) settings.timeout = (w, .ok s) →
      settings.exportPath = [] → settings.replay = false →
      table = ValueFlags.withExtra settings.valueFlags →
      compileCommand? settings.driver command = some (driver, arguments) →
      ∀ refusal path,
        .failed (.unresolved path) ∉ (perform w₀ settings command refusal).2.events := by
  subst hparts
  have hfound := record_ne_unresolved
    (i := ⟨driver, (classify w table workdir arguments).flags, workdir⟩) ho hworkdir happart
  refine ⟨fun x hx => exists_file_of_mem_inputs ho.starts.sound hshort hworkdir hx, hfound,
    fun hput => ?_, ?_⟩
  · obtain ⟨_, hall⟩ := recordsAll_of_inputs
      (i := ⟨driver, (classify w table workdir arguments).flags, workdir⟩) ho hput hworkdir happart
    obtain ⟨files, hok, -, -⟩ := hall.files
    obtain ⟨c', heach⟩ := record_ok ho hok
    obtain ⟨rows, hrows⟩ : ∃ rows, w.table? c.handle = some rows := by
      obtain ⟨_, -, hrecorded⟩ := Store.put_recorded ho (hput ⟨[], [], [], []⟩)
      obtain ⟨rows, hrows, -⟩ := hrecorded.rows
      exact ⟨rows, hrows⟩
    refine ⟨files, rows, _, hok, resolve_inputs heach.names, hrows, heach.rows rows hrows,
      fun hsorted => hsorted.putAll _ files, fun file => ?_⟩
    exact Table.get?_putAll (fun _ => rfl) files rows file
  · intro w₀ settings command hcwd hopened hexport hreplay htable hcommand refusal path
    subst htable
    have hprepare : prepare w s settings workdir command =
        prepareRecord w s settings workdir command := by
      rw [prepare, if_neg (not_not.mpr hexport), hreplay, if_neg (by simp)]
    rw [perform_of_opened hcwd hopened, hprepare, prepareRecord, hcommand]
    simp only
    refine unresolved_not_mem_conclude (fun x hx => record_level hx) ?_
    exact fun hresult => hfound path (map_eq_error.mp hresult)

/-- The world in which the database of `besideWorld` was opened. -/
def besideOpened : World := (Store.openAt besideWorld "/x.db" firstStore.timeout).1

theorem besideOpened_isOpen : ∃ c, firstStore.IsOpen besideOpened c := by
  obtain ⟨v, c, -, hopen, -⟩ := besideWorld_opened.attached besideWorld_isSound
  exact ⟨c, hopen⟩

theorem besideOpened_hasShortPaths : HasShortPaths besideOpened :=
  hasShortPaths_of_entries (by decide)

/-- An input that lies where the undo file goes is recorded if it is the first. -/
theorem record_inputs_besideOpened :
    (classify besideOpened .standard "/" ["x.db-journal", "main.c"] =
        ⟨[], ["x.db-journal", "main.c"]⟩ ∧
      HasShortPaths besideOpened ∧ (∃ c, firstStore.IsOpen besideOpened c) ∧
      InputsApart besideOpened firstStore "/" ["x.db-journal", "main.c"]) ∧
    ∃ files, (record firstStore ⟨"cc", [], "/"⟩ besideOpened
        ["x.db-journal", "main.c"]).result = .ok files ∧
      List.map (besideOpened.resolve "/") ["x.db-journal", "main.c"] = files.map .ok := by
  have hparts : classify besideOpened .standard "/" ["x.db-journal", "main.c"] =
      ⟨[], ["x.db-journal", "main.c"]⟩ := by
    decide
  have happart : InputsApart besideOpened firstStore "/" ["x.db-journal", "main.c"] := by
    intro x hx q hq
    obtain rfl := List.mem_singleton.mp hx
    have hmain : besideOpened.find (Path.join "/" "main.c") = .ok ⟨["main.c"], 0⟩ := by
      decide
    have hundo : firstStore.undo? besideOpened = some (["x.db-journal"] : Place) := by
      decide
    rw [hmain, Except.ok.injEq, Spot.mk.injEq] at hq
    rw [hundo, ← hq.1]
    decide
  obtain ⟨c, hopen⟩ := besideOpened_isOpen
  obtain ⟨-, -, hrecorded, -⟩ :=
    record_inputs besideOpened_hasShortPaths hopen rfl hparts happart "cc"
  obtain ⟨files, -, -, hok, hnames, -⟩ := hrecorded besideWorld_opened.writable
  exact ⟨⟨hparts, besideOpened_hasShortPaths, ⟨c, hopen⟩, happart⟩, files, hok, hnames⟩

/-- **A later input that lies where the undo file goes is missed.**  The classifier finds the file,
the store can keep its records, and nothing but the recorder is at work. -/
theorem record_inputs_fails :
    classify besideOpened .standard "/" ["main.c", "x.db-journal"] =
        ⟨[], ["main.c", "x.db-journal"]⟩ ∧
      HasShortPaths besideOpened ∧ (∃ c, firstStore.IsOpen besideOpened c) ∧
      (∀ r, (firstStore.put besideOpened r).2 = .ok ()) ∧
      (record firstStore ⟨"cc", [], "/"⟩ besideOpened ["main.c", "x.db-journal"]).result =
        .error (.unresolved "x.db-journal") ∧
      .failed (.unresolved "x.db-journal") ∈ (perform besideWorld { database := "/x.db" }
        ["cc", "main.c", "x.db-journal"] none).2.events :=
  ⟨by decide, besideOpened_hasShortPaths, besideOpened_isOpen, besideWorld_opened.writable,
    by decide, by decide⟩

end CompileJournal
