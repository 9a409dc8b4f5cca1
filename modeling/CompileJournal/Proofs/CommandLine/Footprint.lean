import CompileJournal.Proofs.CommandLine.Bookkeeping
import CompileJournal.Proofs.Journal.Arrivals

/-!
# What a run leaves behind

A run may use any database, in any of its modes, and may fail at any point of its work.  For a place
that is given, it does one of three things: it leaves the rows there, it opens the database there
and leaves the rows or an empty table, or it records there and puts a row for each input, one after
the other, up to the one that could not be recorded.  In the last case a row that is there after the
run was there before, or it was put by the run in a known state of its work.

The bounds on what a store changes are carried from its opening to its closing.  Whether the
database at the place is that of the store decides which of them is used in the end.

* `Store.Works`: what work through an open store leaves, however it ends;
* `PutAmong`, `record_works`: a row that was put while several inputs were recorded;
* `Store.Arrives`, `openAt_arrives`: what opening leaves;
* `Recording.Wrote`, `Footprint`: a row that a run has put, and all that a run leaves;
* `run_footprint`: every run.
-/

namespace CompileJournal

open World (tableAt IsLater)

namespace Store

variable {w w' w'' : World} {s : Store} {c c' c'' : Connection}

/-! ## 1. Work through an open store -/

/-- What work through an open store leaves, however it ends: the store is open on its database as
before, nothing has changed but this and what lies beside it, and no other database has come. -/
structure Works (w : World) (s : Store) (c : Connection) (w' : World) (c' : Connection) : Prop where
  isOpen : s.IsOpen w' c'
  handle : c'.handle = c.handle
  cwd : w'.cwd = w.cwd
  locks : w'.locks = w.locks
  disk : w.disk.ChangesOnly c.handle.IsBeside (· = c.handle.file) w'.disk
  brings : w.disk.BringsNoDatabase (· = c.handle.file) w'.disk

theorem Works.refl (ho : s.IsOpen w c) : s.Works w c w c :=
  ⟨ho, rfl, rfl, rfl, .refl ho.starts.sound.tree, .refl _ _⟩

theorem Works.trans (h : s.Works w c w' c') (h' : s.Works w' c' w'' c'') :
    s.Works w c w'' c'' where
  isOpen := h'.isOpen
  handle := h'.handle.trans h.handle
  cwd := h'.cwd.trans h.cwd
  locks := h'.locks.trans h.locks
  disk := h.disk.trans (h.handle ▸ h'.disk)
  brings := h.brings.trans (h.handle ▸ h'.brings)

/-- A row is put, or the rows stay as they are. -/
theorem put_works (ho : s.IsOpen w c) (r : Record) :
    ∃ c', s.Works w c (s.put w r).1 c' ∧
      match (s.put w r).2 with
      | .ok _ => ∃ rows, w.table? c.handle = some rows ∧
          (s.put w r).1.table? c.handle = some (rows.put (Row.ofRecord r))
      | .error _ => (s.put w r).1.table? c.handle = w.table? c.handle := by
  obtain ⟨hwrites, hrows⟩ := World.putRow_spec ho.starts (Row.ofRecord r)
  have hbrings := put_brings ho.connection r
  have hput : s.put w r = _ := use_eq ho.connection _
  rw [hput] at hbrings ⊢
  refine ⟨(w.putRow c (Row.ofRecord r)).connection, ⟨?_, hwrites.handle, hwrites.world.cwd,
    hwrites.world.locks, hwrites.world.disk, hbrings⟩, ?_⟩
  · exact ⟨connection?_setConnection ho.connection hwrites.world.connections _,
      starts_setConnection (hwrites.starts ho.starts) _⟩
  · cases hresult : (w.putRow c (Row.ofRecord r)).result with
    | ok u =>
      rw [hresult] at hrows
      obtain ⟨rows, hbefore, hafter, -⟩ := hrows
      exact ⟨rows, hbefore, hafter⟩
    | error f =>
      rw [hresult] at hrows
      exact World.table?_of_content hrows

/-- Reading brings no database at all, not even that of the store. -/
theorem readRows_works (ho : s.IsOpen w c) (q : Query) :
    ∃ c', s.Works w c (s.use w fun w c => w.readRows c q).1 c' ∧
      w.disk.BringsNoDatabase (fun _ => False) (s.use w fun w c => w.readRows c q).1.disk := by
  have hlooks := World.readRows_looks ho.starts q
  have hbrings : ∀ apart,
      w.disk.BringsNoDatabase apart (s.use w fun w c => w.readRows c q).1.disk :=
    fun apart => use_readRows_brings apart ho.connection q
  have hbound := hlooks.world.bound
  rw [use_eq ho.connection] at hbrings ⊢
  refine ⟨_, ⟨?_, hlooks.handle, hbound.cwd, hbound.locks, ?_, hbrings _⟩, hbrings _⟩
  · exact ⟨connection?_setConnection ho.connection hbound.connections _,
      starts_setConnection (hlooks.starts ho.starts) _⟩
  · exact hbound.disk.mono (fun _ h => h) fun _ h => h.elim

end Store

/-! ## 2. Recording several inputs -/

variable {w w' w₁ : World} {s : Store} {c : Connection} {i : Invocation} {rows : Table}

/-- A row that was put for one of several inputs: those before it had been recorded, and in the
world that this had left its own input was resolved and the row was put. -/
structure PutAmong (s : Store) (i : Invocation) (w : World) (inputs before : List Text)
    (input file : Text) : Prop where
  inputs : before ++ [input] <+: inputs
  earlier : ∃ files, (record s i w before).result = .ok files
  resolved : (record s i w before).world.resolve i.workdir input = .ok file
  kept : (s.put (record s i w before).world (i.recordFor file)).2 = .ok ()

/-- One input more in front. -/
theorem record_cons {input file : Text} {events : List Event}
    (h : recordInput w s i input = ⟨w', events, .ok file⟩) (rest : List Text) :
    (record s i w (input :: rest)).world = (record s i w' rest).world ∧
      (record s i w (input :: rest)).result = (record s i w' rest).result.map (file :: ·) := by
  rw [record, h]
  exact ⟨rfl, rfl⟩

theorem PutAmong.cons {input file other : Text} {events : List Event} {rest before : List Text}
    {x : Text} (h : recordInput w s i input = ⟨w', events, .ok file⟩)
    (hput : PutAmong s i w' rest before x other) :
    PutAmong s i w (input :: rest) (input :: before) x other := by
  obtain ⟨hworld, hresult⟩ := record_cons h before
  obtain ⟨files, hfiles⟩ := hput.earlier
  refine ⟨?_, ⟨file :: files, ?_⟩, ?_, ?_⟩
  · exact List.cons_prefix_cons.mpr ⟨rfl, hput.inputs⟩
  · rw [hresult, hfiles]
    rfl
  · rw [hworld]
    exact hput.resolved
  · rw [hworld]
    exact hput.kept

/-- **Recording puts rows one after the other, up to a failure.**  The rows stay in order, and each
one that is there afterwards was there before or was put for one of the inputs. -/
theorem record_works (ho : s.IsOpen w c) (hrows : w.table? c.handle = some rows)
    (inputs : List Text) :
    ∃ c' rows', s.Works w c (record s i w inputs).world c' ∧
      (record s i w inputs).world.table? c.handle = some rows' ∧
      (Table.IsSorted rows → Table.IsSorted rows') ∧
      ∀ row ∈ rows', row ∈ rows ∨ ∃ before input file, PutAmong s i w inputs before input file ∧
        row = Row.ofRecord (i.recordFor file) := by
  induction inputs generalizing w c rows with
  | nil => exact ⟨c, rows, .refl ho, hrows, id, fun _ h => .inl h⟩
  | cons input rest ih =>
  cases hresolve : w.resolve i.workdir input with
  | error e =>
    have hworld : (record s i w (input :: rest)).world = w := by
      rw [record, recordInput, hresolve]
    rw [hworld]
    exact ⟨c, rows, .refl ho, hrows, id, fun _ h => .inl h⟩
  | ok file =>
  obtain ⟨c', hworks, hput⟩ := Store.put_works ho (i.recordFor file)
  cases hresult : s.put w (i.recordFor file) with
  | mk w' r =>
  rw [hresult] at hworks hput
  cases r with
  | error e =>
    have hworld : (record s i w (input :: rest)).world = w' := by
      simp only [record, recordInput, hresolve, hresult]
    rw [hworld]
    exact ⟨c', rows, hworks, hput.trans hrows, id, fun _ h => .inl h⟩
  | ok u =>
  have hstep : recordInput w s i input =
      ⟨w', [.stored file, .recorded i.driver file], .ok file⟩ := by
    simp only [recordInput, hresolve, hresult]
  obtain ⟨rows₀, hbefore, hafter⟩ := hput
  obtain rfl : rows = rows₀ := Option.some.inj (hrows.symm.trans hbefore)
  obtain ⟨c'', rows', hlater, hrows', hsorted, hmem⟩ := ih hworks.isOpen (hworks.handle ▸ hafter)
  rw [(record_cons hstep rest).1]
  refine ⟨c'', rows', hworks.trans hlater, hworks.handle ▸ hrows', fun h => hsorted (h.put _), ?_⟩
  intro row hrow
  rcases hmem row hrow with hrow | ⟨before, x, other, hput, hrow⟩
  · rcases Table.mem_put hrow with rfl | hrow
    · refine .inr ⟨[], input, file, ⟨?_, ⟨[], rfl⟩, hresolve, ?_⟩, rfl⟩
      · exact List.cons_prefix_cons.mpr ⟨rfl, List.nil_prefix⟩
      · rw [record, hresult]
    · exact .inl hrow
  · exact .inr ⟨input :: before, x, other, hput.cons hstep, hrow⟩

/-! ## 3. Opening -/

namespace Store

variable {path : Text} {p : Place}

/-- A world in which a store has been opened, or would have been if its table could be made: the
database is the one where the path leads, no other one has come, and its rows are those that were
there, or none in a new table. -/
structure Arrives (w : World) (path : Text) (w₁ : World) (c : Connection) : Prop where
  later : w.IsLater w₁
  cwd : w₁.cwd = w.cwd
  hosts : w₁.Hosts c.handle
  place : c.handle.place = place? w path
  brings : w.disk.BringsNoDatabase (· = c.handle.file) w₁.disk
  alone : c.handle.place = none → ∀ x, w₁.disk.entryAt x ≠ some (.file c.handle.file)
  rows : ∀ {p rows}, c.handle.place = some p → w₁.tableAt p = some rows →
    rows = (w.tableAt p).getD []

/-- **Opening a store** ends before there is a connection, or it arrives at the database. -/
theorem openAt_arrives (hw : w.IsSound) (path : Text) (timeout : Binary64) :
    (∃ e, (openAt w path timeout).2 = .error e ∧ w.Grows (openAt w path timeout).1 ∧
      w.disk.BringsNoDatabase (fun _ => False) (openAt w path timeout).1.disk) ∨
    ∃ c, Arrives w path (openAt w path timeout).1 c ∧
      ∀ s, (openAt w path timeout).2 = .ok s → s.IsOpen (openAt w path timeout).1 c ∧
        ∃ rows, (openAt w path timeout).1.table? c.handle = some rows := by
  have hbrings := openAt_brings hw path timeout
  rcases openAt_spec hw path timeout with ⟨e, he, hgrows⟩ | ⟨v, c, ha, hspec⟩
  · refine .inl ⟨e, he, hgrows, ?_⟩
    rcases hbrings with ⟨-, hbrings⟩ | ⟨c, hconnections, -, -⟩
    · exact hbrings
    · rw [hgrows.connections] at hconnections
      exact absurd (congrArg List.length hconnections) (by simp)
  have hhosts : World.Hosts (openAt w path timeout).1 c.handle :=
    ha.hosts.elsewhere ha.disk Handle.not_isBeside
  obtain ⟨hbrings, halone⟩ : w.disk.BringsNoDatabase (· = c.handle.file)
      (openAt w path timeout).1.disk ∧ (c.handle.place = none → ∀ x,
        (openAt w path timeout).1.disk.entryAt x ≠ some (.file c.handle.file)) := by
    rcases hbrings with ⟨hconnections, -⟩ | ⟨c₀, hconnections, hbrings, halone⟩
    · rw [ha.connections] at hconnections
      exact absurd (congrArg List.length hconnections) (by simp)
    · have hlast := List.append_cancel_left (ha.connections.symm.trans hconnections)
      obtain rfl : c = c₀ := Option.some.inj (List.cons.inj hlast).1
      exact ⟨hbrings, halone⟩
  refine .inr ⟨c, ⟨ha.isLater hw, ha.cwd, hhosts, ha.place, hbrings, halone, ?_⟩, ?_⟩
  · intro p rows hp hrows
    rw [hhosts.tableAt_eq hp] at hrows
    rw [← ha.tableAt_before hw hp]
    cases hresult : (openAt w path timeout).2 with
    | ok s =>
      rw [hresult] at hspec
      obtain ⟨-, -, -, htable⟩ := hspec
      rw [hrows] at htable
      exact Option.some.inj htable
    | error e =>
      rw [hresult] at hspec
      rw [← World.table?_of_content hspec.1, hrows]
      rfl
  · intro s hs
    rw [hs] at hspec
    obtain ⟨hopen, -, -, htable⟩ := hspec
    exact ⟨hopen, _, htable⟩

/-! ## 4. From the opening to the closing -/

/-- A store that is there to be closed after its work, and perhaps after an export: the database is
where it was, and no other one has come. -/
structure Survives (w : World) (s : Store) (c : Connection) (w' : World) (c' : Connection) :
    Prop where
  connection : s.connection? w' = some c'
  handle : c'.handle = c.handle
  later : w.IsLater w'
  cwd : w'.cwd = w.cwd
  hosts : w'.Hosts c.handle
  file : ∀ {x}, w'.disk.entryAt x = some (.file c.handle.file) →
    w.disk.entryAt x = some (.file c.handle.file)
  brings : w.disk.BringsNoDatabase (· = c.handle.file) w'.disk

theorem Works.survives (h : s.Works w c w' c') (ho : s.IsOpen w c) : s.Survives w c w' c' where
  connection := h.isOpen.connection
  handle := h.handle
  later := ⟨h.isOpen.starts.sound, h.disk.directory, h.disk.link, h.locks⟩
  cwd := h.cwd
  hosts := h.handle ▸ h.isOpen.starts.hosts
  file hx := (h.disk.file hx).resolve_right (Nat.not_le.mpr ho.starts.hosts.number)
  brings := h.brings

/-- Writing a text to a path. -/
theorem Survives.write (h : s.Survives w c w' c') {path t : Text}
    (hwrite : w'.writeText path t = .ok w'') : s.Survives w c w'' c' := by
  have hbound := World.writeText_bounded h.later.sound hwrite
  refine ⟨?_, h.handle, h.later.trans (hbound.isLater h.later.sound), hbound.cwd.trans h.cwd, ?_,
    fun hx => h.file ?_, h.brings.trans (World.writeText_brings _ hwrite)⟩
  · rw [connection?, hbound.connections]
    exact h.connection
  · exact h.hosts.elsewhere hbound.disk fun hp => by simp [h.hosts.place hp]
  · exact (hbound.disk.file hx).resolve_right (Nat.not_le.mpr h.hosts.number)

/-- Closing the store. -/
theorem Survives.close (h : s.Survives w c w' c') :
    w.IsLater (s.close w') ∧ (s.close w').cwd = w.cwd ∧ (s.close w').Hosts c.handle ∧
      (∀ {x}, (s.close w').disk.entryAt x = some (.file c.handle.file) →
        w.disk.entryAt x = some (.file c.handle.file)) := by
  have hhosts : w'.Hosts c'.handle := h.handle.symm ▸ h.hosts
  have hbound := close_bounded h.connection h.later.sound hhosts
  refine ⟨h.later.trans (close_isLater h.connection h.later.sound hhosts),
    hbound.cwd.trans h.cwd, ?_, fun hx => h.file ?_⟩
  · rw [← h.handle]
    have hhosts' : World.Hosts (s.setConnection w' none) c'.handle :=
      ⟨hhosts.number, hhosts.place⟩
    exact hhosts'.elsewhere hbound.disk Handle.not_isBeside
  · exact (hbound.disk.file hx).resolve_right (Nat.not_le.mpr h.hosts.number)

/-- Closing keeps the rows of the database. -/
theorem Survives.tableAt_own (h : s.Survives w c w' c') (hp : c.handle.place = some p)
    {rows : Table} (hrows : w'.table? c.handle = some rows) :
    (s.close w').tableAt p = some rows := by
  have hp' : c'.handle.place = some p := h.handle.symm ▸ hp
  have hbefore : w'.tableAt p = some rows := (h.hosts.tableAt_eq hp).trans hrows
  exact close_tableAt h.connection h.later.sound (h.handle.symm ▸ h.hosts) hbefore
    (Handle.not_isBeside hp')

/-- **The rows at any other place** were there before the store was opened. -/
theorem Arrives.tableAt_other (ha : Arrives w path w₁ c) (hs : s.Survives w₁ c w' c')
    (hp : c.handle.place ≠ some p) {rows : Table} (hrows : (s.close w').tableAt p = some rows) :
    w.tableAt p = some rows := by
  obtain ⟨hlater, -, hhosts, hfile⟩ := hs.close
  exact World.tableAt_of_brings_ne hlater.sound hhosts
    (fun hnone x hx => ha.alone hnone x (hfile hx))
    (ha.brings.trans (hs.brings.trans (close_brings _ _ _))) hp hrows

end Store

/-! ## 5. A whole run -/

namespace CommandLine

variable {tokens : List Text} {settings : Settings} {cwd : Text} {c' : Connection} {p : Place}

/-- A run that records, with the settings it has read, the world in which its store was open, and
the compile command it was given. -/
structure Recording (w : World) (tokens : List Text) where
  settings : Settings
  cwd : Text
  opened : World
  store : Store
  driver : Text
  arguments : List Text
  flags : Settings.read (split tokens).own = .ok settings
  isExport : settings.exportPath = []
  isReplay : settings.replay = false
  directory : w.currentDirectory = .ok cwd
  opens : Store.openAt w (settings.databasePath w) settings.timeout = (opened, .ok store)
  command : compileCommand? settings.driver (split tokens).command = some (driver, arguments)

namespace Recording

/-- The table of value flags of a run that records. -/
def valueFlags (r : Recording w tokens) : ValueFlags :=
  ValueFlags.withExtra r.settings.valueFlags

/-- The compile arguments in two parts, as the run finds them on the tree it has. -/
def parts (r : Recording w tokens) : Classified :=
  classify r.opened r.valueFlags r.cwd r.arguments

/-- What the run records for each input. -/
def invocation (r : Recording w tokens) : Invocation := ⟨r.driver, r.parts.flags, r.cwd⟩

/-- The run has put a row into the database at a place, and `v` was the world right before that. -/
structure Wrote (r : Recording w tokens) (p : Place) (row : Row) (v : World) : Prop where
  place : Store.place? w (r.settings.databasePath w) = some p
  put : ∃ before input, (record r.store r.invocation r.opened before).world = v ∧
    PutAmong r.store r.invocation r.opened r.parts.inputs before input row.file
  row : row = Row.ofRecord (r.invocation.recordFor row.file)

end Recording

/-- What a run leaves: a later world, in which the rows at each place are in order if they were so
before, and each row was there before or was put by this run. -/
structure Footprint (w : World) (tokens : List Text) (w' : World) : Prop where
  later : w.IsLater w'
  cwd : w'.cwd = w.cwd
  sorted : ∀ {p rows}, w'.tableAt p = some rows → Table.IsSorted ((w.tableAt p).getD []) →
    Table.IsSorted rows
  rows : ∀ {p rows row}, w'.tableAt p = some rows → row ∈ rows →
    row ∈ (w.tableAt p).getD [] ∨ ∃ (r : Recording w tokens) (v : World), r.Wrote p row v

/-- A run that leaves the rows at all places, or an empty table where there was none. -/
theorem Footprint.of_same (hlater : w.IsLater w') (hcwd : w'.cwd = w.cwd)
    (hsame : ∀ {p rows}, w'.tableAt p = some rows → rows = (w.tableAt p).getD []) :
    Footprint w tokens w' where
  later := hlater
  cwd := hcwd
  sorted hrows hsorted := hsame hrows ▸ hsorted
  rows hrows hrow := .inl (hsame hrows ▸ hrow)

/-- No database has come, and so the rows at all places are the same. -/
theorem Footprint.of_brings (hlater : w.IsLater w') (hcwd : w'.cwd = w.cwd)
    (hbrings : w.disk.BringsNoDatabase (fun _ => False) w'.disk) : Footprint w tokens w' :=
  .of_same hlater hcwd fun hrows => by
    rw [World.tableAt_of_brings hlater.sound hbrings (fun _ _ h => h) hrows]
    rfl

theorem exportTo_survives (ho : s.IsOpen w c) (path : Text) :
    ∃ c', s.Survives w c (exportTo w s path).world c' ∧
      w.disk.BringsNoDatabase (fun _ => False) (exportTo w s path).world.disk := by
  obtain ⟨c', hworks, hbrings⟩ := Store.readRows_works ho .list
  have hworld : (entries w s).1 = (s.use w fun w c => w.readRows c .list).1 := records_world w s
  rw [← hworld] at hworks hbrings
  have hsurvives := hworks.survives ho
  unfold exportTo
  cases hlist : entries w s with
  | mk w' r =>
  rw [hlist] at hsurvives hbrings
  cases r with
  | error e => exact ⟨c', hsurvives, hbrings⟩
  | ok es =>
  simp only
  cases hwrite : w'.writeText path (CompileEntry.renderAll es) with
  | error e => exact ⟨c', hsurvives, hbrings⟩
  | ok w'' =>
    exact ⟨c', hsurvives.write hwrite,
      hbrings.trans (World.writeText_brings _ hwrite)⟩

theorem replay_survives (ho : s.IsOpen w c) (cwd input : Text) (o : Overrides) :
    ∃ c', s.Survives w c (replay w s cwd input o).world c' ∧
      w.disk.BringsNoDatabase (fun _ => False) (replay w s cwd input o).world.disk := by
  rcases replay_world w s cwd input o with hworld | hworld
  · rw [hworld]
    exact ⟨c, (Store.Works.refl ho).survives ho, .refl _ _⟩
  · rw [hworld]
    obtain ⟨c', hworks, hbrings⟩ := Store.readRows_works ho .get
    exact ⟨c', hworks.survives ho, hbrings⟩

/-- The work of a run leaves its store to be closed.  It brings no database, or it records and has
put rows for its inputs. -/
theorem prepare_survives (ho : s.IsOpen w c) (hrows : w.table? c.handle = some rows)
    (settings : Settings) (cwd : Text) (tokens : List Text) :
    ∃ c', s.Survives w c (prepare w s settings cwd tokens).world c' ∧
      (w.disk.BringsNoDatabase (fun _ => False) (prepare w s settings cwd tokens).world.disk ∨
        settings.exportPath = [] ∧ settings.replay = false ∧ ∃ driver arguments,
          compileCommand? settings.driver tokens = some (driver, arguments) ∧
          ∃ parts, parts = classify w (ValueFlags.withExtra settings.valueFlags) cwd arguments ∧
          ∃ rows', (prepare w s settings cwd tokens).world.table? c.handle = some rows' ∧
            (Table.IsSorted rows → Table.IsSorted rows') ∧
            ∀ row ∈ rows', row ∈ rows ∨ ∃ before input file,
              PutAmong s ⟨driver, parts.flags, cwd⟩ w parts.inputs before input file ∧
                row = Row.ofRecord (Invocation.recordFor ⟨driver, parts.flags, cwd⟩ file)) := by
  unfold prepare
  split
  · obtain ⟨c', hsurvives, hbrings⟩ := exportTo_survives ho settings.exportPath
    exact ⟨c', hsurvives, .inl hbrings⟩
  next hexport =>
  split
  · cases tokens with
    | nil => exact ⟨c, (Store.Works.refl ho).survives ho, .inl (.refl _ _)⟩
    | cons input extra =>
      obtain ⟨c', hsurvives, hbrings⟩ := replay_survives ho cwd input
        ⟨settings.wrapper, settings.driver, settings.alternative, extra⟩
      exact ⟨c', hsurvives, .inl hbrings⟩
  next hreplay =>
  unfold prepareRecord
  cases hcommand : compileCommand? settings.driver tokens with
  | none => exact ⟨c, (Store.Works.refl ho).survives ho, .inl (.refl _ _)⟩
  | some r =>
  obtain ⟨driver, arguments⟩ := r
  simp only
  obtain ⟨c', rows', hworks, hrows', hsorted, hmem⟩ :=
    record_works (i := ⟨driver, (classify w (ValueFlags.withExtra settings.valueFlags) cwd
      arguments).flags, cwd⟩) ho hrows
      (classify w (ValueFlags.withExtra settings.valueFlags) cwd arguments).inputs
  exact ⟨c', hworks.survives ho, .inr ⟨not_not.mp hexport, by simpa using hreplay, driver,
    arguments, rfl, _, rfl, rows', hrows', hsorted, hmem⟩⟩

/-- The footprint of a run with settings that were read. -/
theorem perform_footprint (hw : w.IsSound) (hread : Settings.read (split tokens).own = .ok settings)
    (refusal : Option Errno) :
    Footprint w tokens (perform w settings (split tokens).command refusal).1 := by
  have harrives := Store.openAt_arrives hw (settings.databasePath w) settings.timeout
  rcases perform_cases w settings (split tokens).command refusal with
    ⟨e, -, hperform⟩ | ⟨-, w₁, e, -, hopen, hperform⟩ | ⟨cwd, w₁, s, hcwd, hopen, hperform⟩
  · rw [hperform]
    exact .of_brings (.refl hw) rfl (.refl _ _)
  · rw [hopen] at harrives
    rw [hperform]
    rcases harrives with ⟨e, -, hgrows, hbrings⟩ | ⟨c, ha, -⟩
    · exact .of_brings (hgrows.isLater hw) hgrows.cwd hbrings
    refine .of_same ha.later ha.cwd fun {p rows} hrows => ?_
    by_cases hp : c.handle.place = some p
    · exact ha.rows hp hrows
    · rw [World.tableAt_of_brings_ne ha.later.sound ha.hosts ha.alone ha.brings hp hrows]
      rfl
  rw [hopen] at harrives
  rw [hperform]
  rcases harrives with ⟨e, he, -⟩ | ⟨c, ha, hopens⟩
  · exact absurd he (by simp)
  obtain ⟨ho, rows₁, hrows₁⟩ := hopens s rfl
  obtain ⟨c', hs, hwork⟩ := prepare_survives ho hrows₁ settings cwd (split tokens).command
  obtain ⟨hlater, hcwd', hhosts, -⟩ := hs.close
  simp only
  rcases hwork with hbrings | ⟨hexport, hreplay, driver, arguments, hcommand, parts, hparts, rows',
    hrows', hsorted, hmem⟩
  · -- Nothing was written, so the rows are those after the opening.
    refine .of_same (ha.later.trans hlater) (hcwd'.trans ha.cwd) fun {p rows} hrows => ?_
    by_cases hp : c.handle.place = some p
    · refine ha.rows hp (World.tableAt_of_brings hlater.sound ?_ (fun _ _ h => h) hrows)
      exact hbrings.trans (Store.close_brings _ _ s)
    · rw [ha.tableAt_other hs hp hrows]
      rfl
  -- The rows at the place of the database are those that the recording has left.
  have hown : ∀ {p rows}, c.handle.place = some p →
      (s.close (prepare w₁ s settings cwd (split tokens).command).world).tableAt p = some rows →
        rows = rows' ∧ rows₁ = (w.tableAt p).getD [] := by
    intro p rows hp hrows
    rw [hs.tableAt_own hp hrows'] at hrows
    exact ⟨(Option.some.inj hrows).symm, ha.rows hp ((ha.hosts.tableAt_eq hp).trans hrows₁)⟩
  refine ⟨ha.later.trans hlater, hcwd'.trans ha.cwd, fun {p rows} hrows hbefore => ?_,
    fun {p rows row} hrows hrow => ?_⟩
  · by_cases hp : c.handle.place = some p
    · obtain ⟨rfl, rfl⟩ := hown hp hrows
      exact hsorted hbefore
    · rw [ha.tableAt_other hs hp hrows] at hbefore
      exact hbefore
  · by_cases hp : c.handle.place = some p
    · obtain ⟨rfl, rfl⟩ := hown hp hrows
      rcases hmem row hrow with hrow | ⟨before, input, file, hput, rfl⟩
      · exact .inl hrow
      · subst hparts
        refine .inr ⟨⟨settings, cwd, w₁, s, driver, arguments, hread, hexport, hreplay, hcwd, hopen,
          hcommand⟩, _, ?_, ⟨before, input, rfl, hput⟩, rfl⟩
        exact ha.place.symm.trans hp
    · rw [ha.tableAt_other hs hp hrows]
      exact .inl hrow

/-- **Every run leaves later rows**, whatever its flags, its database and its mode, and however it
ends. -/
theorem run_footprint (hw : w.IsSound) (tokens : List Text) (refusal : Option Errno) :
    Footprint w tokens (run w tokens refusal).1 := by
  rcases run_cases w tokens refusal with hsame | ⟨settings, hread, hperform⟩
  · rw [hsame]
    exact .of_brings (.refl hw) rfl (.refl _ _)
  · rw [hperform]
    exact perform_footprint hw hread refusal

end CommandLine

end CompileJournal
