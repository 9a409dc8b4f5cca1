import CompileJournal.Commands.Export
import CompileJournal.Commands.Replay
import CompileJournal.Proofs.Commands.Recording
import CompileJournal.Proofs.Journal.Tables
import CompileJournal.Proofs.World.Writing

/-!
# A recorded row that lasts

What was recorded for a file is a row in a database, and other commands come after it: they read
this database or others, record other files and export.  The row is still there as long as none of
them replaces it, takes the database for a file beside another one, or writes over it.

The work of a command is followed from the opening of its store to the closing.  The invariant is
that the row is there, that the store is open on its own database, and that nothing has gone from
the world that a later command needs.

* `World.HasRow`: a row in a database;
* `Store.Serves`, `Store.Served`: the invariant, and what is left of it after an export;
* `Store.openAt_serves`, `Serves.put`, `Serves.readRows`, `Served.close`: its steps;
* `record_serves`, `replay_serves`, `exportTo_served`: the three commands.
-/

namespace CompileJournal

namespace World

variable {w w' w'' : World} {h g : Handle} {row : Row} {p : Place}
  {touched : Place → Prop} {written : FileNumber → Prop}

/-! ## 1. Later worlds -/

/-- A later world: the directories are still there, no link has come, and the locks are the
same. -/
structure IsLater (w w' : World) : Prop where
  sound : w'.IsSound
  directory : ∀ {x}, w.disk.entryAt x = some .directory → w'.disk.entryAt x = some .directory
  link : ∀ {x t}, w'.disk.entryAt x = some (.link t) → w.disk.entryAt x = some (.link t)
  locks : w'.locks = w.locks

namespace IsLater

theorem refl (hw : w.IsSound) : w.IsLater w := ⟨hw, id, id, rfl⟩

theorem trans (h : w.IsLater w') (h' : w'.IsLater w'') : w.IsLater w'' :=
  ⟨h'.sound, fun hx => h'.directory (h.directory hx), fun hx => h.link (h'.link hx),
    h'.locks.trans h.locks⟩

end IsLater

theorem ChangesOnly.isLater (h : w.ChangesOnly touched written w') (hw : w.IsSound) :
    w.IsLater w' :=
  ⟨h.sound hw, h.disk.directory, h.disk.link, h.locks⟩

theorem isShared_append {c? : Option Connection} (hlocks : w'.locks = w.locks)
    (hconnections : w'.connections = w.connections ++ [c?]) {n : FileNumber}
    (hc : ∀ c, c? = some c → c.handle.file ≠ n ∨ c.memory.isLogging = false) :
    w'.isShared n = w.isShared n := by
  rw [isShared, isShared, hlocks, hconnections, List.any_append]
  have hlast : ([c?].any fun c? => c?.any fun c =>
      c.handle.file = n && c.memory.isLogging) = false := by
    cases c? with
    | none => rfl
    | some c => rcases hc c rfl with hne | hlogging <;> simp_all
  rw [hlast, Bool.or_false]

/-! ## 2. A row in a database -/

/-- The database of a handle has a row. -/
structure HasRow (w : World) (h : Handle) (row : Row) : Prop where
  hosts : w.Hosts h
  row : ∃ rows, w.table? h = some rows ∧ rows.get? row.file = some row

/-- **A row lasts** through all changes that leave the place and the file of its database alone. -/
theorem HasRow.after (hr : w.HasRow h row) (hw : w.IsSound) (hp : h.place = some p)
    (hc : w.disk.ChangesOnly touched written w'.disk) (ht : ¬touched p)
    (hn : ¬written h.file) : w'.HasRow h row := by
  have hentry := hr.hosts.place hp
  have hcontent : w'.content h = w.content h := hc.content_kept hw.tree hentry ht hn
  obtain ⟨rows, hrows, hrow⟩ := hr.row
  refine ⟨hr.hosts.elsewhere hc ?_, rows, (table?_of_content hcontent).trans hrows, hrow⟩
  intro q hq
  obtain rfl := Option.some.inj (hp.symm.trans hq)
  exact ht

end World

/-- **A row lasts** through work on a database that spares its own, and through work on its own
database that leaves it there. -/
theorem World.HasRow.of_spares {w w' : World} {g h : Handle} {row : Row} {p : Place}
    (hr : w.HasRow h row) (hw : w.IsSound) (hp : h.place = some p) (hspares : g.Spares h)
    (hc : w.disk.ChangesOnly g.IsBeside (· = g.file) w'.disk)
    (hown : g = h → ∃ rows, w'.table? h = some rows ∧ rows.get? row.file = some row) :
    w'.HasRow h row := by
  by_cases hfile : h.file = g.file
  · have hsame : g = h := hspares.resolve_right fun hne => hne.1 hfile.symm
    exact ⟨hr.hosts.elsewhere hc hspares.not_isBeside, hown hsame⟩
  · exact hr.after hw hp hc (hspares.not_isBeside hp) hfile

/-! ## 3. The work of a store -/

open World (Starts Writes Looks HasRow IsLater)

namespace Store

variable {w₀ w : World} {s : Store} {g h : Handle} {row : Row} {c : Connection} {p : Place}

/-- A store that was opened in `w₀` on a database, in a world where another database, or the same
one, has a row. -/
structure Served (w₀ : World) (s : Store) (g h : Handle) (row : Row) (w : World) : Prop where
  later : w₀.IsLater w
  row : w.HasRow h row
  connection : ∃ c, s.connection? w = some c ∧ c.handle = g
  hosts : w.Hosts g
  others : w.connections.set s.connection none = w₀.connections ++ [none]

/-- Such a store that can go on. -/
structure Serves (w₀ : World) (s : Store) (g h : Handle) (row : Row) (w : World) : Prop where
  later : w₀.IsLater w
  row : w.HasRow h row
  isOpen : ∃ c, s.IsOpen w c ∧ c.handle = g
  others : w.connections.set s.connection none = w₀.connections ++ [none]

theorem Serves.served (hk : s.Serves w₀ g h row w) : s.Served w₀ g h row w := by
  obtain ⟨c, ho, hc⟩ := hk.isOpen
  exact ⟨hk.later, hk.row, ⟨c, ho.connection, hc⟩, hc ▸ ho.starts.hosts, hk.others⟩

/-- **One turn of a store**, which leaves the row in its own database if that is the one. -/
theorem Serves.use {α : Type} (hk : s.Serves w₀ g h row w) (hp : h.place = some p)
    (hspares : g.Spares h) (f : World → Connection → Turn α)
    (hf : ∀ c, s.IsOpen w c → c.handle = g → Writes w c (f w c) ∧
      (g = h → ∃ rows, (f w c).world.table? h = some rows ∧ rows.get? row.file = some row)) :
    s.Serves w₀ g h row (s.use w f).1 := by
  obtain ⟨c, ho, hc⟩ := hk.isOpen
  obtain ⟨hwrites, hown⟩ := hf c ho hc
  subst hc
  have hrow : (f w c).world.HasRow h row :=
    hk.row.of_spares ho.starts.sound hp hspares hwrites.world.disk hown
  rw [use_eq ho.connection]
  refine {
    later := hk.later.trans (hwrites.world.isLater ho.starts.sound |>.trans ?_)
    row := ⟨⟨hrow.hosts.number, hrow.hosts.place⟩, hrow.row⟩
    isOpen := ⟨(f w c).connection, ⟨connection?_setConnection ho.connection
      hwrites.world.connections _, starts_setConnection (hwrites.starts ho.starts) _⟩,
      hwrites.handle⟩
    others := ?_ }
  · exact ⟨(starts_setConnection (hwrites.starts ho.starts) _).sound, id, id, rfl⟩
  · rw [← hk.others, setConnection, hwrites.world.connections]
    exact List.set_set ..

/-- Reading leaves the row where it is. -/
theorem Serves.readRows (hk : s.Serves w₀ g h row w) (hp : h.place = some p)
    (hspares : g.Spares h) (q : Query) :
    s.Serves w₀ g h row (s.use w fun w c => w.readRows c q).1 := by
  refine hk.use hp hspares _ ?_
  intro c ho hc
  have hlooks := World.readRows_looks ho.starts q
  refine ⟨hlooks.writes, ?_⟩
  intro hsame
  obtain ⟨rows, hrows, hrow⟩ := hk.row.row
  have hcontent := hlooks.content ho.starts
  rw [hlooks.handle, hc, hsame] at hcontent
  exact ⟨rows, (World.table?_of_content hcontent).trans hrows, hrow⟩

/-- Recording leaves the row where it is, unless it is the same file in the same database. -/
theorem Serves.put (hk : s.Serves w₀ g h row w) (hp : h.place = some p) (hspares : g.Spares h)
    (r : Record) (hother : g = h → (s.put w r).2 = .ok () → r.file ≠ row.file) :
    s.Serves w₀ g h row (s.put w r).1 := by
  refine hk.use hp hspares _ ?_
  intro c ho hc
  obtain ⟨hwrites, hspec⟩ := World.putRow_spec ho.starts (Row.ofRecord r)
  refine ⟨hwrites, ?_⟩
  intro hsame
  obtain ⟨rows, hrows, hrow⟩ := hk.row.row
  rw [hc, hsame] at hspec
  split at hspec
  · next hok =>
    obtain ⟨rows', hrows', hafter, -⟩ := hspec
    obtain rfl := Option.some.inj (hrows.symm.trans hrows')
    have hput : (s.put w r).2 = .ok () := by
      rw [Store.put, use_eq ho.connection, hok]
      rfl
    have hne : (Row.ofRecord r).file ≠ row.file := hother hsame hput
    exact ⟨_, hafter, by rw [Table.get?_put, if_neg hne, hrow]⟩
  · exact ⟨rows, (World.table?_of_content hspec).trans hrows, hrow⟩

/-- Closing a store leaves the row of a database that it spares. -/
theorem close_hasRow (hc : s.connection? w = some c) (hw : w.IsSound) (hh : w.Hosts c.handle)
    (hr : w.HasRow h row) (hp : h.place = some p) (hspares : c.handle.Spares h) :
    (s.close w).HasRow h row := by
  have hbound := close_bounded hc hw hh
  have hrow : (s.setConnection w none).HasRow h row :=
    ⟨⟨hr.hosts.number, hr.hosts.place⟩, hr.row⟩
  exact hrow.after ⟨hw.tree, hw.cwd⟩ hp hbound.disk (hspares.not_isBeside hp) id

theorem close_isLater (hc : s.connection? w = some c) (hw : w.IsSound) (hh : w.Hosts c.handle) :
    w.IsLater (s.close w) := by
  have hsound : (s.setConnection w none).IsSound := ⟨hw.tree, hw.cwd⟩
  have hlater : w.IsLater (s.setConnection w none) := ⟨hsound, id, id, rfl⟩
  exact hlater.trans ((close_bounded hc hw hh).isLater hsound)

/-- **A command that has been served closes its store**, and the row is still there. -/
theorem Served.close (hk : s.Served w₀ g h row w) (hp : h.place = some p)
    (hspares : g.Spares h) :
    w₀.IsLater (s.close w) ∧ (s.close w).HasRow h row ∧
      (s.close w).connections = w₀.connections ++ [none] := by
  obtain ⟨c, hc, rfl⟩ := hk.connection
  have hw := hk.later.sound
  refine ⟨hk.later.trans (close_isLater hc hw hk.hosts), close_hasRow hc hw hk.hosts hk.row hp
    hspares, ?_⟩
  rw [(close_bounded hc hw hk.hosts).connections]
  exact hk.others

/-! ## 4. Opening -/

/-- The row of a world in which a store was attached. -/
theorem Attached.hasRow {path : Text} {v w' : World} (ha : Attached w path v w' c)
    (hw : w.IsSound) (hr : w.HasRow h row) (hp : h.place = some p)
    (hspares : c.handle.Spares h)
    (htable : ∀ rows, v.table? c.handle = some rows → w'.table? c.handle = some rows) :
    w'.HasRow h row := by
  have hgrown : v.HasRow h row := hr.after hw hp ha.grows.disk (by simp [hr.hosts.place hp]) id
  refine hgrown.of_spares (ha.grows.sound hw) hp hspares ha.disk ?_
  rintro rfl
  obtain ⟨rows, hrows, hrow⟩ := hgrown.row
  exact ⟨rows, htable rows hrows, hrow⟩

theorem Attached.isLater {path : Text} {v w' : World} (ha : Attached w path v w' c)
    (hw : w.IsSound) : w.IsLater w' := by
  refine (ha.grows.isLater hw).trans ⟨⟨ha.disk.tree, ?_⟩, ha.disk.directory, ha.disk.link, ?_⟩
  · rw [ha.cwd]
    exact ha.disk.directory (ha.grows.disk.directory hw.cwd)
  · rw [ha.locks, ha.grows.locks]

/-- **Opening a store** leaves the row of a database that it spares.  A store that cannot be
opened leaves nobody on the log of that database. -/
theorem openAt_serves (hw : w.IsSound) (hr : w.HasRow h row) (hp : h.place = some p)
    (path : Text) (timeout : Binary64)
    (hapart : ∀ other, place? w path = some other → ¬LiesBeside p other) :
    match (openAt w path timeout).2 with
    | .ok s => ∃ g, s.Serves w g h row (openAt w path timeout).1 ∧ g.Spares h ∧
        (g = h → place? w path = some p)
    | .error _ => w.IsLater (openAt w path timeout).1 ∧ (openAt w path timeout).1.HasRow h row ∧
        (openAt w path timeout).1.isShared h.file = w.isShared h.file := by
  rcases openAt_spec hw path timeout with ⟨e, he, hgrows⟩ | ⟨v, c, ha, hspec⟩
  · rw [he]
    exact ⟨hgrows.isLater hw, hr.after hw hp hgrows.disk (by simp [hr.hosts.place hp]) id,
      World.isShared_eq hgrows.locks hgrows.connections _⟩
  obtain ⟨hspares, hsame⟩ := ha.spares hw hr.hosts hp hapart
  cases hresult : (openAt w path timeout).2 with
  | ok s =>
    rw [hresult] at hspec
    obtain ⟨hopen, -, hnumber, htable⟩ := hspec
    refine ⟨c.handle, ⟨ha.isLater hw, ha.hasRow hw hr hp hspares fun rows hrows => ?_,
      ⟨c, hopen, rfl⟩, ?_⟩, hspares, hsame⟩
    · rw [htable, hrows]
      rfl
    · rw [ha.connections, hnumber]
      simp
  | error e =>
    rw [hresult] at hspec
    obtain ⟨hcontent, hlogging⟩ := hspec
    refine ⟨ha.isLater hw, ha.hasRow hw hr hp hspares fun rows hrows => ?_, ?_⟩
    · exact (World.table?_of_content hcontent).trans hrows
    · refine World.isShared_append ha.locks ha.connections ?_
      intro c' hc'
      obtain rfl := Option.some.inj hc'
      refine hspares.imp (fun hown => ?_) And.left |>.symm
      have hgrown : v.HasRow h row :=
        hr.after hw hp ha.grows.disk (by simp [hr.hosts.place hp]) id
      obtain ⟨rows, hrows, -⟩ := hgrown.row
      exact hlogging rows (hown.symm ▸ hrows)

end Store

/-! ## 5. The three commands -/

variable {w₀ w : World} {s : Store} {g h : Handle} {row : Row} {p : Place}

/-- Recording leaves the row, unless it reports that it has recorded the file again. -/
theorem record_serves (hk : s.Serves w₀ g h row w) (hp : h.place = some p)
    (hspares : g.Spares h) (i : Invocation) (inputs : List Text)
    (hother : g = h → ∀ d, .recorded d row.file ∉ (record s i w inputs).events) :
    s.Serves w₀ g h row (record s i w inputs).world := by
  induction inputs generalizing w with
  | nil => exact hk
  | cons input rest ih =>
    rw [record] at hother ⊢
    unfold recordInput at hother ⊢
    cases hresolve : w.resolve i.workdir input with
    | error e => exact hk
    | ok file =>
      simp only [hresolve] at hother ⊢
      cases hput : s.put w (i.recordFor file) with
      | mk w' r =>
      have hnext := hk.put hp hspares (i.recordFor file)
      rw [hput] at hnext
      cases r with
      | error e =>
        refine hnext ?_
        intro _ hok
        exact absurd hok (by simp)
      | ok u =>
        simp only [hput] at hother ⊢
        have hk' := hnext fun hsame _ hfile => by
          refine hother hsame i.driver (List.mem_append_left _ ?_)
          rw [← hfile]
          simp [Invocation.recordFor]
        exact ih hk' fun hsame d hd => hother hsame d (List.mem_append_right _ hd)

theorem get_world (w : World) (s : Store) (file : Text) :
    (s.get w file).1 = (s.use w fun w c => w.readRows c .get).1 := by
  unfold Store.get
  split
  · next heq => rw [heq]
  · next heq =>
    rw [heq]
    split <;> rfl

theorem records_world (w : World) (s : Store) :
    (s.records w).1 = (s.use w fun w c => w.readRows c .list).1 := by
  unfold Store.records
  split
  · next heq => rw [heq]
  · next heq => rw [heq]

/-- Replaying leaves the row. -/
theorem replay_serves (hk : s.Serves w₀ g h row w) (hp : h.place = some p)
    (hspares : g.Spares h) (cwd input : Text) (o : Overrides) :
    s.Serves w₀ g h row (replay w s cwd input o).world := by
  unfold replay
  split
  · exact hk
  next file _ =>
  have hread := hk.readRows hp hspares .get
  rw [← get_world w s file] at hread
  split
  all_goals
    next heq =>
    rw [heq] at hread
    exact hread

/-- Exporting leaves the row, unless the path leads to the database itself. -/
theorem exportTo_served (hk : s.Serves w₀ g h row w) (hp : h.place = some p)
    (hspares : g.Spares h) (path : Text) (hpath : (entries w s).1.find path ≠ .ok ⟨p, 0⟩) :
    s.Served w₀ g h row (exportTo w s path).world := by
  have hread := hk.readRows hp hspares .list
  rw [← records_world w s] at hread
  have hentries : (entries w s).1 = (s.records w).1 := rfl
  rw [← hentries] at hread
  unfold exportTo
  cases hlist : entries w s with
  | mk w' r =>
  rw [hlist] at hread hpath
  cases r with
  | error e => exact hread.served
  | ok es =>
    simp only
    cases hwrite : w'.writeText path (CompileEntry.renderAll es) with
    | error e => exact hread.served
    | ok w'' =>
      have hw := hread.later.sound
      have hbound := World.writeText_bounded hw hwrite
      obtain ⟨c, ho, hc⟩ := hread.isOpen
      have hentry := hread.row.hosts.place hp
      have hg : w'.Hosts g := hc ▸ ho.starts.hosts
      have hconnection : s.connection? w'' = some c := by
        rw [Store.connection?, hbound.connections]
        exact ho.connection
      refine {
        later := hread.later.trans (hbound.isLater hw)
        row := hread.row.after hw hp hbound.disk (by simp [hentry]) ?_
        connection := ⟨c, hconnection, hc⟩
        hosts := hg.elsewhere hbound.disk fun hq => by simp [hg.place hq]
        others := ?_ }
      · rintro ⟨q, hq, hfile⟩
        exact hpath (hw.tree.unique hentry hfile ▸ hq)
      · rw [hbound.connections, hread.others]

end CompileJournal
