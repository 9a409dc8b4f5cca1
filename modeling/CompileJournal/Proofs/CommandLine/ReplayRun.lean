import CompileJournal.Proofs.CommandLine.LaterRuns

/-!
# A run that replays

A run in replay mode opens the journal, resolves the path it was given, looks up the row under that
text and ends with the command that the row keeps, some parts of it replaced.  Where the row is
there and the database can be read, the only thing that can go wrong is the path.  It does not: what
a path leads to is resolved to the text of its place, and opening the journal takes nothing away
that the path needs, unless the file itself lies where the undo file of the database goes.

* `Overrides.argv_command`: the command of a record, token by token;
* `replay_of_reopened`: the lookup in a database that was opened again;
* `perform_replay`: what such a run ends with.
-/

namespace CompileJournal

variable {w w' : World} {s : Store} {c : Connection} {h : Handle} {rows : Table} {r : Record}
  {q p : Place}

/-! ## 1. The command of a record -/

/-- What stands in front of a replayed command: the wrapper, if there is one. -/
def inFront (wrapper : Text) : List Text := if wrapper = [] then [] else [wrapper]

/-- A replayed command is the wrapper, the compiler, the recorded flags, the further arguments and
the file, in this order. -/
theorem Overrides.argv_command (o : Overrides) (r : Record) :
    (o.command r).argv = inFront o.wrapper ++ orElse o.driver r.driver ::
      (r.flags ++ o.extra ++ [orElse o.alternative r.file]) := by
  rw [command, inFront]
  split <;> rfl

theorem Overrides.workdir_command (o : Overrides) (r : Record) :
    (o.command r).workdir = r.workdir := by
  rw [command]
  split <;> rfl

/-! ## 2. The lookup -/

/-- A database that was opened again gives back the record of its row. -/
theorem Store.get_of_reopened (hopen : Reopened w h rows w' s c)
    (hrow : rows.get? r.file = some (Row.ofRecord r)) : (s.get w' r.file).2 = .ok (some r) := by
  have hrows : w'.table? c.handle = some rows := hopen.handle ▸ hopen.rows
  have hread :=
    World.readRows_of_isResting hopen.isOpen.starts hopen.knows hrows hopen.resting .get
  rw [get, use_eq hopen.isOpen.connection, hread]
  simp only [Except.mapError, hrow, Row.record_ofRecord]
  rfl

/-- **The record of a file is found under every path that leads to the file.** -/
theorem replay_of_reopened (hopen : Store.Reopened w h rows w' s c)
    (hlinks : w'.disk.HasShortLinks) {cwd input : Text} (hbase : Path.isAbsolute cwd = true)
    (hfind : w'.find (Path.join cwd input) = .ok ⟨q, 0⟩) (hfile : r.file = q.text)
    (hrow : rows.get? r.file = some (Row.ofRecord r)) (o : Overrides) :
    replay w' s cwd input o =
      ⟨(s.get w' r.file).1, [.found r.driver r.file], .ok (o.command r)⟩ := by
  have hget : s.get w' r.file = ((s.get w' r.file).1, .ok (some r)) :=
    Prod.ext rfl (Store.get_of_reopened hopen hrow)
  have hresolve : w'.resolve cwd input = .ok r.file :=
    hfile ▸ World.resolve_text hlinks hbase hfind
  rw [replay, hresolve]
  simp only
  rw [hget]

/-- Opening a database again takes nothing away that a lookup needs, unless it ends at the undo
file. -/
theorem Store.Reopened.find_kept (hopen : Reopened w h rows w' s c) {path : Text}
    (hfind : w.find path = .ok ⟨q, 0⟩) (hundo : h.undo ≠ some q) :
    w'.find path = .ok ⟨q, 0⟩ := by
  refine World.find_kept hopen.cwd hfind ?_
  intro x e hx hneeded
  rcases hneeded with rfl | hlink | rfl
  · exact hopen.directory hx
  · exact hopen.kept (fun _ => hlink) hx
  · exact hopen.kept (fun hu => absurd hu hundo) hx

/-! ## 3. The run -/

namespace CommandLine

variable {settings : Settings}

/-- What a run replaces in the record it replays. -/
def overridesOf (settings : Settings) (extra : List Text) : Overrides :=
  ⟨settings.wrapper, settings.driver, settings.alternative, extra⟩

/-- **A run in replay mode ends with the command that was recorded**, if the database has its row
and can be read, and the path it is given leads to the file. -/
theorem perform_replay (hh : w.Holds h (Row.ofRecord r)) (hp : h.place = some p)
    (hroom : p.byteCount ≤ maxDatabasePath) (hlinks : w.disk.HasShortLinks)
    (hlost : w.cwd.lost = 0) (hnames : Store.Names w (settings.databasePath w) p)
    (hexport : settings.exportPath = []) (hreplay : settings.replay = true) {input : Text}
    (hfind : w.find (Path.join w.cwd.place.text input) = .ok ⟨q, 0⟩) (hfile : r.file = q.text)
    (hundo : h.undo ≠ some q) (extra : List Text) (refusal : Option Errno) :
    ∃ v events, w.IsLater v ∧ perform w settings (input :: extra) refusal =
      (v, finish v settings events refusal ((overridesOf settings extra).command r)) := by
  obtain ⟨rows, hrows, hrow⟩ := hh.row.row
  obtain ⟨w', s, c, hopened, hopen⟩ := Store.openAt_of_names hnames hh.sound hh.row.hosts hp hroom
    hrows hh.calm settings.timeout
  have hlinks' : w'.disk.HasShortLinks := fun hx => hlinks (hopen.link hx)
  have hfound := replay_of_reopened hopen hlinks' (isAbsolute_text w.cwd.place)
    (hopen.find_kept hfind hundo) hfile hrow (overridesOf settings extra)
  have hprepare : prepare w' s settings w.cwd.place.text (input :: extra) =
      ⟨(s.get w' r.file).1, [.found r.driver r.file],
        .ok (.launch ((overridesOf settings extra).command r))⟩ := by
    rw [prepare, if_neg (not_not.mpr hexport), if_pos hreplay, prepareReplay]
    rw [overridesOf] at hfound
    simp only [hfound]
    rfl
  have hperform : perform w settings (input :: extra) refusal =
      (s.close (s.get w' r.file).1, finish (s.close (s.get w' r.file).1) settings
        [.found r.driver r.file] refusal ((overridesOf settings extra).command r)) := by
    rw [perform_of_opened (currentDirectory_eq hlost) hopened, hprepare]
    rfl
  -- The database spares itself, so the work of the run is that of a run which leaves the row.
  have hself : ∀ other, Store.place? w (settings.databasePath w) = some other →
      ¬LiesBeside p other := by
    intro other hother
    rw [hnames.place, Option.some.injEq] at hother
    subst hother
    exact Handle.not_isBeside rfl
  have hserves := Store.openAt_serves hh.sound hh.row hp (settings.databasePath w)
    settings.timeout hself
  rw [hopened] at hserves
  obtain ⟨g, hserves, hspares, -⟩ := hserves
  have hserved := prepare_served hserves hp hspares w.cwd.place.text (input :: extra)
    (fun hne => absurd hexport hne)
    (by rw [hprepare]; intro _ d hd; exact absurd hd (by simp))
  rw [hprepare] at hserved
  obtain ⟨hlater, -, -⟩ := hserved.close hp hspares
  exact ⟨_, _, hlater, hperform⟩

end CommandLine

end CompileJournal
