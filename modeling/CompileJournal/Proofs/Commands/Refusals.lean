import CompileJournal.Commands.Launch
import CompileJournal.Proofs.Commands.SameCompile
import CompileJournal.Proofs.World.Refusals

/-!
# Why a command fails

A command on the journal resolves paths, opens a store and uses it, and ends with the first of these
that fails.  What a store refuses is always reported, whether a transaction from outside is in the
way, the table is missing or the file is no database.  But the rows it gives are not all records:
a row whose line is no sequence of words is a failure of another kind, and nothing that writes rows
through a store brings one about.

* `Store.use_error`, `Store.openAt_error`: what a store fails with;
* `record_error`, `replay_error`, `exportTo_error`: what the three commands fail with;
* `replaceProcess_error`: what launching fails with.
-/

namespace CompileJournal

variable {w : World} {s : Store} {e : Failure} {path file : Text}

/-- A table that cannot be read as records has a row that is none. -/
theorem Table.records_error {rows : Table} {d : Words.DecodeError}
    (h : rows.records = .error d) : ∃ row ∈ rows, row.record = .error d := by
  induction rows with
  | nil => exact absurd h (by simp [Table.records, pure, Except.pure])
  | cons row rest ih =>
    rw [Table.records] at h ih
    rw [List.mapM_cons] at h
    cases hrow : row.record with
    | error d' =>
      rw [hrow] at h
      exact ⟨row, List.mem_cons_self, (Except.error.inj h) ▸ hrow⟩
    | ok r =>
    rw [hrow] at h
    cases hrest : rest.mapM Row.record with
    | ok rs =>
      rw [hrest] at h
      exact absurd h (by simp [bind, Except.bind, pure, Except.pure])
    | error d' =>
      rw [hrest] at h
      obtain rfl : d' = d := Except.error.inj h
      obtain ⟨row', hrow', hd⟩ := ih hrest
      exact ⟨row', List.mem_cons_of_mem _ hrow', hd⟩

/-! ## 1. Stores -/

namespace Store

/-- A refusal by a database is always reported, and it is not about a path of a command. -/
theorem isReported_failure (s : Store) (fault : DatabaseFault) :
    (s.failure fault).isReported = true := by
  cases fault <;> rfl

theorem failure_ne_unresolved (s : Store) (fault : DatabaseFault) (path : Text) :
    s.failure fault ≠ .unresolved path := by
  cases fault <;> simp [failure]

/-- **What a store fails with is a refusal by its database.** -/
theorem use_error {α : Type} {f : World → Connection → Turn α} (h : (s.use w f).2 = .error e) :
    ∃ fault, e = s.failure fault := by
  unfold use at h
  split at h
  · cases h
    exact ⟨.closed, rfl⟩
  · obtain ⟨fault, -, hfault⟩ := mapError_eq_error.mp h
    exact ⟨fault, hfault.symm⟩

theorem isReported_of_use {α : Type} {f : World → Connection → Turn α}
    (h : (s.use w f).2 = .error e) : e.isReported = true := by
  obtain ⟨fault, rfl⟩ := use_error h
  exact isReported_failure s fault

/-- The character with code 0 gets into the directories of a path by the path alone. -/
theorem nul_mem_of_lexicalPath (hw : w.IsSound) {l : Path.Lexical}
    (hl : lexicalPath w path = .ok l) (hnul : Text.nul ∈ l.parent.text) : Text.nul ∈ path := by
  obtain ⟨m, hparent, hmem⟩ := Path.mem_of_mem_text (by decide) hnul
  have hm := List.mem_of_mem_tail hparent
  unfold lexicalPath at hl
  split at hl
  · obtain rfl := Except.ok.inj hl
    exact (Path.mem_pieces (Path.mem_pieces_of_mem_lexical hm)).2 _ hmem
  split at hl
  · exact absurd hl (by simp)
  next here hcwd =>
  obtain rfl := Except.ok.inj hl
  have hjoin := (Path.mem_pieces (Path.mem_pieces_of_mem_lexical hm)).2 _ hmem
  refine (Path.mem_of_mem_join (by decide) hjoin).resolve_left ?_
  rw [← (CommandLine.cwd_of_currentDirectory hcwd).2]
  exact no_nul_text fun m hm => (hw.tree.clean hw.cwd m hm).no_nul

/-- **Opening a store** fails for a reason that is reported, for a path that holds the character with
code 0, or because too many directories are missing above the database. -/
theorem openAt_error (hw : w.IsSound) {timeout : Binary64}
    (h : (openAt w path timeout).2 = .error e) :
    e.Concerns path ∨ e = .tooDeep ∧ ∃ l, lexicalPath w path = .ok l ∧
      World.maxMissingDepth < w.missingDepth l.parent.doubled l.parent.inner := by
  unfold openAt at h
  split at h
  · next hl =>
    cases h
    refine .inl (.reported ?_)
    unfold lexicalPath at hl
    split at hl
    · exact absurd hl (by simp)
    split at hl
    · next hcwd =>
      cases hl
      rw [(World.currentDirectory_error hcwd).2]
      rfl
    · exact absurd hl (by simp)
  next l hl =>
  split at h
  · next hmake =>
    cases h
    rcases World.makeDirectories_error (congrArg Prod.snd hmake) with hconcerns | ⟨rfl, hdeep⟩
    · exact .inl (hconcerns.mono (nul_mem_of_lexicalPath hw hl))
    · exact .inr ⟨rfl, l, hl, hdeep⟩
  split at h
  · next hconnect =>
    cases h
    exact .inl (World.connect_error hconnect)
  · exact .inl (.reported (isReported_of_use (map_eq_error.mp h)))

/-- Looking up a file fails if the store refuses it, or if the row of the file is no record. -/
theorem get_error (h : (s.get w file).2 = .error e) :
    e.isReported = true ∨ ∃ rows row d, (s.use w fun w c => w.readRows c .get).2 = .ok rows ∧
      rows.get? file = some row ∧ row.record = .error d ∧ e = .undecodable d := by
  rw [get_eq] at h
  simp only at h
  cases hread : (s.use w fun w c => w.readRows c .get).2 with
  | error e' =>
    rw [hread] at h
    obtain rfl : e' = e := Except.error.inj h
    exact .inl (isReported_of_use hread)
  | ok rows =>
  rw [hread] at h
  simp only [Except.bind, recordIn] at h
  cases hrow : rows.get? file with
  | none =>
    rw [hrow] at h
    exact absurd h (by simp)
  | some row =>
  simp only [hrow] at h
  obtain ⟨d, hrecord, rfl⟩ := mapError_eq_error.mp (map_eq_error.mp h)
  exact .inr ⟨rows, row, d, rfl, hrow, hrecord, rfl⟩

/-- Listing all records fails if the store refuses it, or if a row is no record. -/
theorem records_error (h : (s.records w).2 = .error e) :
    e.isReported = true ∨ ∃ rows row d, (s.use w fun w c => w.readRows c .list).2 = .ok rows ∧
      row ∈ rows ∧ row.record = .error d ∧ e = .undecodable d := by
  rw [records_eq] at h
  simp only at h
  cases hread : (s.use w fun w c => w.readRows c .list).2 with
  | error e' =>
    rw [hread] at h
    obtain rfl : e' = e := Except.error.inj h
    exact .inl (isReported_of_use hread)
  | ok rows =>
  rw [hread] at h
  obtain ⟨d, hrecords, rfl⟩ := mapError_eq_error.mp h
  obtain ⟨row, hrow, hd⟩ := Table.records_error hrecords
  exact .inr ⟨rows, row, d, rfl, hrow, hd, rfl⟩

end Store

/-! ## 2. The commands on the journal -/

/-- **Recording fails for reasons that are reported.** -/
theorem record_error {i : Invocation} {inputs : List Text}
    (h : (record s i w inputs).result = .error e) : e.isReported = true := by
  induction inputs generalizing w with
  | nil => exact absurd h (by simp [record])
  | cons input rest ih =>
    rw [record] at h
    unfold recordInput at h
    cases hresolve : w.resolve i.workdir input with
    | error e' =>
      simp only [hresolve] at h
      obtain rfl : e' = e := Except.error.inj h
      exact World.resolve_error hresolve
    | ok file =>
    cases hput : s.put w (i.recordFor file) with
    | mk w' r =>
    cases r with
    | error e' =>
      simp only [hresolve, hput] at h
      obtain rfl : e' = e := Except.error.inj h
      exact Store.isReported_of_use (congrArg Prod.snd hput)
    | ok u =>
    simp only [hresolve, hput] at h
    exact ih (map_eq_error.mp h)

/-- Recording reports what it has recorded, and no failure. -/
theorem record_level {i : Invocation} {inputs : List Text} {x : Event}
    (h : x ∈ (record s i w inputs).events) : x.level ≠ .error := by
  induction inputs generalizing w with
  | nil => exact absurd h (by simp [record])
  | cons input rest ih =>
    rw [record] at h
    unfold recordInput at h
    cases hresolve : w.resolve i.workdir input with
    | error e' =>
      simp only [hresolve] at h
      exact absurd h (by simp)
    | ok file =>
    cases hput : s.put w (i.recordFor file) with
    | mk w' r =>
    cases r with
    | error e' =>
      simp only [hresolve, hput] at h
      exact absurd h (by simp)
    | ok u =>
    simp only [hresolve, hput] at h
    rcases List.mem_append.mp h with h | h
    · simp only [List.mem_cons, List.not_mem_nil, or_false] at h
      rcases h with rfl | rfl <;> simp [Event.level]
    · exact ih h

/-- **Replaying fails** for reasons that are reported, or because the row of the file is no
record. -/
theorem replay_error {cwd input : Text} {o : Overrides}
    (h : (replay w s cwd input o).result = .error e) :
    e.isReported = true ∨ ∃ file rows row d, w.resolve cwd input = .ok file ∧
      (s.use w fun w c => w.readRows c .get).2 = .ok rows ∧ rows.get? file = some row ∧
      row.record = .error d ∧ e = .undecodable d := by
  unfold replay at h
  split at h
  · next hresolve =>
    obtain rfl := Except.error.inj h
    exact .inl (World.resolve_error hresolve)
  next file hresolve =>
  split at h
  · next hget =>
    obtain rfl := Except.error.inj h
    rcases Store.get_error (congrArg Prod.snd hget) with hreported | ⟨rows, row, d, hread, hrest⟩
    · exact .inl hreported
    · exact .inr ⟨file, rows, row, d, hresolve, hread, hrest⟩
  · obtain rfl := Except.error.inj h
    exact .inl rfl
  · exact absurd h (by simp)

/-- A replay that went through has found the row of the file, and its command has the directory of
this row. -/
theorem replay_ok {cwd input : Text} {o : Overrides} {c : Command}
    (h : (replay w s cwd input o).result = .ok c) :
    ∃ file rows row, w.resolve cwd input = .ok file ∧
      (s.use w fun w c => w.readRows c .get).2 = .ok rows ∧ rows.get? file = some row ∧
      c.workdir = row.workdir := by
  unfold replay at h
  split at h
  · exact absurd h (by simp)
  next file hresolve =>
  split at h
  · exact absurd h (by simp)
  · exact absurd h (by simp)
  next r hget =>
  have hfound := congrArg Prod.snd hget
  rw [Store.get_eq] at hfound
  simp only at hfound
  cases hread : (s.use w fun w c => w.readRows c .get).2 with
  | error e' =>
    rw [hread] at hfound
    exact absurd hfound (by simp [Except.bind])
  | ok rows =>
  rw [hread] at hfound
  obtain ⟨row, hrow, hrecord⟩ := Store.recordIn_eq_some.mp hfound
  refine ⟨file, rows, row, hresolve, rfl, hrow, ?_⟩
  obtain rfl := Except.ok.inj h
  rw [Overrides.workdir_command]
  obtain ⟨flags, -, rfl⟩ := Row.record_eq_ok.mp hrecord
  rfl

theorem replay_level {cwd input : Text} {o : Overrides} {x : Event}
    (h : x ∈ (replay w s cwd input o).events) : x.level ≠ .error := by
  unfold replay at h
  split at h
  · exact absurd h (by simp)
  split at h
  · exact absurd h (by simp)
  · exact absurd h (by simp)
  · obtain rfl := List.mem_singleton.mp h
    simp [Event.level]

/-- **Exporting fails** for reasons that are reported, because a row is no record, or because the path
holds the character with code 0. -/
theorem exportTo_error (h : (exportTo w s path).result = .error e) :
    e.Concerns path ∨ ∃ rows row d, (s.use w fun w c => w.readRows c .list).2 = .ok rows ∧
      row ∈ rows ∧ row.record = .error d ∧ e = .undecodable d := by
  unfold exportTo at h
  split at h
  · next hentries =>
    obtain rfl := Except.error.inj h
    have hlist := congrArg Prod.snd hentries
    exact (Store.records_error (map_eq_error.mp hlist)).imp_left .reported
  next es hentries =>
  split at h
  · next hwrite =>
    obtain rfl := Except.error.inj h
    exact .inl (World.writeText_error hwrite)
  · exact absurd h (by simp)

theorem exportTo_level {x : Event} (h : x ∈ (exportTo w s path).events) : x.level ≠ .error := by
  unfold exportTo at h
  split at h
  · exact absurd h (by simp)
  split at h
  · exact absurd h (by simp)
  · obtain rfl := List.mem_singleton.mp h
    simp [Event.level]

/-! ## 3. Launching -/

/-- **Launching a command** fails by an answer of the system, or because the directory holds the
character with code 0. -/
theorem replaceProcess_error {argv : List Text} {directory : Text} {refusal : Option Errno}
    (hargv : argv ≠ []) (h : (replaceProcess w argv directory refusal).result = .error e) :
    (∃ reason about, e = .system reason about) ∨ e = .nulInPath ∧ Text.nul ∈ directory := by
  unfold replaceProcess at h
  split at h
  · next hshown =>
    obtain rfl := Except.error.inj h
    unfold reportedDirectory at hshown
    split at hshown
    · exact .inl ⟨_, _, (World.currentDirectory_error hshown).2⟩
    · exact absurd hshown (by simp)
  simp only at h
  split at h
  · next henter =>
    obtain rfl := Except.error.inj h
    unfold enter at henter
    split at henter
    · exact absurd henter (by simp)
    · exact World.changeDirectory_error henter
  rw [if_neg hargv] at h
  split at h
  · next hhere =>
    obtain rfl := Except.error.inj h
    exact .inl ⟨_, _, (World.currentDirectory_error hhere).2⟩
  · unfold answer at h
    split at h
    · exact absurd h (by simp)
    · obtain rfl := Except.error.inj h
      exact .inl ⟨_, _, rfl⟩

/-- A launch that goes through replaces the process. -/
theorem replaceProcess_ok {argv : List Text} {directory : Text} {refusal : Option Errno}
    {status : Option Int} (h : (replaceProcess w argv directory refusal).result = .ok status) :
    status = none ∧ (replaceProcess w argv directory refusal).launch.isSome := by
  unfold replaceProcess at h ⊢
  cases hshown : reportedDirectory w directory with
  | error e =>
    rw [hshown] at h
    exact absurd h (by simp)
  | ok shown =>
  cases henter : enter w directory with
  | error e =>
    rw [hshown, henter] at h
    exact absurd h (by simp)
  | ok w' =>
  simp only [hshown, henter] at h ⊢
  split at h
  · exact absurd h (by simp)
  next hargv =>
  cases hhere : w'.currentDirectory with
  | error e =>
    rw [hhere] at h
    exact absurd h (by simp)
  | ok here =>
  rw [hhere] at h
  cases refusal with
  | none => exact ⟨(Except.ok.inj h).symm, by simp [hargv]⟩
  | some reason => exact absurd h (by simp [answer])

theorem replaceProcess_level {argv : List Text} {directory : Text} {refusal : Option Errno}
    {x : Event} (h : x ∈ (replaceProcess w argv directory refusal).events) :
    x.level ≠ .error := by
  have hexecuting : ∀ shown, x ∈ [Event.executing argv shown] → x.level ≠ .error := by
    intro shown hx
    obtain rfl := List.mem_singleton.mp hx
    simp [Event.level]
  unfold replaceProcess at h
  split at h
  · exact absurd h (by simp)
  simp only at h
  repeat' split at h
  all_goals exact hexecuting _ h

end CompileJournal
