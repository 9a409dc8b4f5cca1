import CompileJournal.Proofs.CommandLine.RecordRun
import CompileJournal.Proofs.Commands.Lasting

/-!
# Runs after a recording

After a file was recorded, the command line is run again and again, in other directories, with
other flags, on other databases.  A run *leaves* the record of the file if it does not record the
file anew in the same database, does not export over that database, does not use a database beside
which it lies, and brings nothing but files to the places beside it.  Whatever else it does, and
however it ends, the row is there after it, and nobody stands in the way of reading it.

* `Leaves`, `LaterRuns`: such a run, and any number of them;
* `World.Holds`: the invariant, a row in a calm database;
* `run_holds`: one run keeps it;
* `laterRuns_holds`: so do all.
-/

namespace CompileJournal

open World (HasRow IsLater IsCalm)

/-- The world in which a command starts in another directory, with another environment. -/
def World.startedIn (w : World) (cwd : Spot) (environment : List (Text × Text)) : World :=
  { w with cwd := cwd, environment := environment }

/-- A row in a database that can be read. -/
structure World.Holds (w : World) (h : Handle) (row : Row) : Prop where
  sound : w.IsSound
  row : w.HasRow h row
  calm : w.IsCalm h

theorem World.Holds.startedIn {w : World} {h : Handle} {row : Row} (hh : w.Holds h row)
    {cwd : Spot} (hcwd : w.disk.entryAt cwd.place = some .directory)
    (environment : List (Text × Text)) : (w.startedIn cwd environment).Holds h row :=
  ⟨⟨hh.sound.tree, hcwd⟩, ⟨⟨hh.row.hosts.number, hh.row.hosts.place⟩, hh.row.row⟩,
    ⟨hh.calm.alone, hh.calm.files⟩⟩

namespace CommandLine

variable {w w₀ w₁ w' : World} {s : Store} {g h : Handle} {row : Row} {p : Place}
  {settings : Settings} {tokens : List Text} {refusal : Option Errno}

/-! ## 1. The work of a run -/

/-- What was reported by the work of a run is in the run's report. -/
theorem mem_events_conclude {o : Outcome Prepared} {e : Event} (he : e ∈ o.events) :
    e ∈ (conclude settings refusal o).events := by
  unfold conclude
  split
  · unfold failed
    split
    · exact List.mem_append_left _ he
    · exact he
  · exact he
  · exact he
  · unfold finish
    simp only
    split
    · exact he
    split
    · exact List.mem_append_left _ he
    split
    · exact List.mem_append_left _ (List.mem_append_left _ he)
    · exact List.mem_append_left _ he

/-- **The work of a run leaves the row**, whichever of its modes it is in. -/
theorem prepare_served (hk : s.Serves w₀ g h row w) (hp : h.place = some p) (hspares : g.Spares h)
    (cwd : Text) (command : List Text) (hexport : settings.exportPath ≠ [] →
      (entries w s).1.find settings.exportPath ≠ .ok ⟨p, 0⟩)
    (hother : g = h → ∀ d, .recorded d row.file ∉ (prepare w s settings cwd command).events) :
    s.Served w₀ g h row (prepare w s settings cwd command).world := by
  unfold prepare at hother ⊢
  split
  · next hpath => exact exportTo_served hk hp hspares settings.exportPath (hexport hpath)
  next hpath =>
  rw [if_neg hpath] at hother
  split
  · unfold prepareReplay
    split
    · exact hk.served
    · exact (replay_serves hk hp hspares ..).served
  next hreplay =>
  rw [if_neg hreplay] at hother
  unfold prepareRecord at hother ⊢
  split
  · exact hk.served
  · next driver arguments hcommand =>
    rw [hcommand] at hother
    exact (record_serves hk hp hspares _ _ hother).served

/-- Whether a run exports over the file at a place. -/
def ExportsTo (w : World) (settings : Settings) (p : Place) : Prop :=
  settings.exportPath ≠ [] ∧ ∃ w₁ s,
    Store.openAt w (settings.databasePath w) settings.timeout = (w₁, .ok s) ∧
      (entries w₁ s).1.find settings.exportPath = .ok ⟨p, 0⟩

/-- What a run leaves of a row, with settings that were read. -/
theorem perform_lasts (hw : w.IsSound) (hr : w.HasRow h row) (hp : h.place = some p)
    (command : List Text)
    (hapart : ∀ other, Store.place? w (settings.databasePath w) = some other →
      ¬LiesBeside p other)
    (hexport : ¬ExportsTo w settings p)
    (hother : Store.place? w (settings.databasePath w) = some p → ∀ d,
      .recorded d row.file ∉ (perform w settings command refusal).2.events) :
    w.IsLater (perform w settings command refusal).1 ∧
      (perform w settings command refusal).1.HasRow h row ∧
      (perform w settings command refusal).1.isShared h.file = w.isShared h.file := by
  have hopen := Store.openAt_serves hw hr hp (settings.databasePath w) settings.timeout hapart
  rcases perform_cases w settings command refusal with ⟨e, -, hperform⟩ | ⟨-, w₁, e, -, hresult, hperform⟩ |
    ⟨cwd, w₁, s, -, hresult, hperform⟩
  · rw [hperform]
    exact ⟨.refl hw, hr, rfl⟩
  · rw [hresult] at hopen
    rw [hperform]
    exact hopen
  · rw [hresult] at hopen
    rw [hperform] at hother ⊢
    obtain ⟨g, hserves, hspares, hsame⟩ := hopen
    have hserved := prepare_served hserves hp hspares cwd command
      (fun hne hfind => hexport ⟨hne, w₁, s, hresult, hfind⟩)
      fun hown d hd => hother (hsame hown) d (mem_events_conclude hd)
    obtain ⟨hlater, hrow, hconnections⟩ := hserved.close hp hspares
    exact ⟨hlater, hrow, World.isShared_append hlater.locks hconnections (by simp)⟩

/-! ## 2. One run after another -/

/-- A run that does not record a file in the database at a place, does not export over that
database, and brings nothing but files to the places beside it. -/
structure LeavesAlone (p : Place) (file : Text) (w : World) (tokens : List Text)
    (refusal : Option Errno) : Prop where
  exported : ∀ {settings}, Settings.read (split tokens).own = .ok settings →
    ¬ExportsTo w settings p
  recorded : ∀ {settings}, Settings.read (split tokens).own = .ok settings →
    Store.place? w (settings.databasePath w) = some p → ∀ driver,
      .recorded driver file ∉ (perform w settings (split tokens).command refusal).2.events
  tree : ∀ {x e}, LiesBeside x p → (run w tokens refusal).1.disk.entryAt x = some e →
    (∀ n, e ≠ .file n) → w.disk.entryAt x = some e

/-- Such a run, on a database beside which the other one does not lie. -/
structure Leaves (p : Place) (file : Text) (w : World) (tokens : List Text)
    (refusal : Option Errno) : Prop extends LeavesAlone p file w tokens refusal where
  beside : ∀ {settings other}, Settings.read (split tokens).own = .ok settings →
    Store.place? w (settings.databasePath w) = some other → ¬LiesBeside p other

/-- Runs one after the other, each in a directory and an environment of its own, that leave the
record of a file in the database at a place. -/
inductive LaterRuns (p : Place) (file : Text) (w : World) : World → Prop
  | none : LaterRuns p file w w
  | next {w' : World} (earlier : LaterRuns p file w w') {cwd : Spot}
      {environment : List (Text × Text)} {tokens : List Text} {refusal : Option Errno}
      (hcwd : w'.disk.entryAt cwd.place = some .directory)
      (hleaves : Leaves p file (w'.startedIn cwd environment) tokens refusal) :
      LaterRuns p file w (run (w'.startedIn cwd environment) tokens refusal).1

/-- **A run that leaves a record keeps its row**, and nobody comes in its way. -/
theorem run_holds (hh : w.Holds h row) (hp : h.place = some p)
    (hleaves : Leaves p row.file w tokens refusal) :
    w.IsLater (run w tokens refusal).1 ∧ (run w tokens refusal).1.Holds h row := by
  suffices hlasts : w.IsLater (run w tokens refusal).1 ∧ (run w tokens refusal).1.HasRow h row ∧
      (run w tokens refusal).1.isShared h.file = w.isShared h.file by
    obtain ⟨hlater, hrow, hshared⟩ := hlasts
    refine ⟨hlater, hlater.sound, hrow, hshared.trans hh.calm.alone, fun {x e} hx he => ?_⟩
    by_cases hfile : ∃ n, e = .file n
    · exact hfile
    · have hbeside : LiesBeside x p := (Handle.isBeside_iff hp).mp (hx.imp id .inl)
      exact hh.calm.files hx (hleaves.tree hbeside he (not_exists.mp hfile))
  rcases run_cases w tokens refusal with hsame | ⟨settings, hread, hperform⟩
  · rw [hsame]
    exact ⟨.refl hh.sound, hh.row, rfl⟩
  · rw [hperform]
    exact perform_lasts hh.sound hh.row hp _ (fun _ => hleaves.beside hread)
      (hleaves.exported hread) (hleaves.recorded hread)

/-- **All later runs keep the row.** -/
theorem laterRuns_holds (hruns : LaterRuns p row.file w w') (hh : w.Holds h row)
    (hp : h.place = some p) : w.IsLater w' ∧ w'.Holds h row := by
  induction hruns with
  | none => exact ⟨.refl hh.sound, hh⟩
  | @next v _ cwd environment tokens refusal hcwd hleaves ih =>
    obtain ⟨hlater, hholds⟩ := ih
    obtain ⟨hlater', hholds'⟩ := run_holds (hholds.startedIn hcwd environment) hp hleaves
    refine ⟨hlater.trans ?_, hholds'⟩
    exact ⟨hlater'.sound, hlater'.directory, hlater'.link, hlater'.locks⟩

end CommandLine

end CompileJournal
