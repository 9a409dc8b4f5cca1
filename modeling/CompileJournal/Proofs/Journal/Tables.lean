import CompileJournal.Proofs.Journal.Stores

/-!
# The rows at a place

A database can be named by the place where it lies, and then its rows are a matter of the disk
alone: those of the file at that place.  They stay as they are under every change that leaves the
place and the file alone, so whoever works on one database need not know of the others.

* `World.tableAt`: the rows at a place;
* `Hosts.tableAt_eq`: they are those of an open database at that place;
* `tableAt_after`: the rows at a place that was left alone;
* `Handle.Spares`: the databases whose use leaves another one alone;
* `Attached.tableAt_before`, `openAt_tableAt`: the rows when a store is opened;
* `use_readRows`, `close_tableAt`: what reading and closing leave.
-/

namespace CompileJournal

namespace World

variable {w w' : World} {h : Handle} {p : Place} {rows : Table}
  {touched : Place → Prop} {written : FileNumber → Prop}

/-! ## 1. The rows at a place -/

/-- The rows of the database at a place, if one with the table lies there. -/
def tableAt (w : World) (p : Place) : Option Table :=
  match w.disk.entryAt p with
  | some (.file n) => w.table? ⟨n, some p⟩
  | _ => none

theorem Hosts.tableAt_eq (hh : w.Hosts h) (hp : h.place = some p) :
    w.tableAt p = w.table? h := by
  rw [tableAt, hh.place hp]
  rfl

/-- Where there are rows, there is a file. -/
theorem hosts_of_tableAt (hw : w.IsSound) (hrows : w.tableAt p = some rows) :
    ∃ n, w.Hosts ⟨n, some p⟩ ∧ w.table? ⟨n, some p⟩ = some rows := by
  unfold tableAt at hrows
  split at hrows
  · next n hfile =>
    refine ⟨n, ⟨hw.tree.number hfile, ?_⟩, hrows⟩
    rintro q ⟨⟩
    exact hfile
  · exact absurd hrows (by simp)

theorem tableAt_of_none (hnone : w.disk.entryAt p = none) : w.tableAt p = none := by
  rw [tableAt, hnone]

/-- **The rows at a place stay** under changes that leave the place and its file alone. -/
theorem tableAt_after (hw : w.IsSound) (hc : w.disk.ChangesOnly touched written w'.disk)
    (hrows : w.tableAt p = some rows) (ht : ¬touched p)
    (hn : ∀ n, w.disk.entryAt p = some (.file n) → ¬written n) : w'.tableAt p = some rows := by
  obtain ⟨n, hh, htable⟩ := hosts_of_tableAt hw hrows
  have hentry := hh.place rfl
  have hh' : w'.Hosts ⟨n, some p⟩ := by
    refine hh.elsewhere hc ?_
    rintro q ⟨⟩
    exact ht
  rw [hh'.tableAt_eq rfl]
  exact (table?_of_content (hc.content_kept hw.tree hentry ht (hn n hentry))).trans htable

end World

/-! ## 2. Databases that are used side by side -/

/-- Using the one database leaves the other alone, or they are the same. -/
def Handle.Spares (g h : Handle) : Prop :=
  g = h ∨ g.file ≠ h.file ∧ ∀ p, h.place = some p → ¬g.IsBeside p

theorem Handle.Spares.not_isBeside {g h : Handle} (hs : g.Spares h) {p : Place}
    (hp : h.place = some p) : ¬g.IsBeside p := by
  rcases hs with rfl | ⟨-, hbeside⟩
  · exact Handle.not_isBeside hp
  · exact hbeside p hp

namespace Store

open World (tableAt)

variable {w v w' : World} {h : Handle} {path : Text} {c : Connection} {p : Place} {rows : Table}

/-- The database that a store is attached to spares the other one, and it is the same one only at
the same place. -/
theorem Attached.spares {path : Text} {v w' : World} (ha : Attached w path v w' c)
    (hw : w.IsSound) (hh : w.Hosts h) (hp : h.place = some p)
    (hapart : ∀ other, place? w path = some other → ¬LiesBeside p other) :
    c.handle.Spares h ∧ (c.handle = h → place? w path = some p) := by
  refine ⟨?_, fun hsame => by rw [← ha.place, hsame, hp]⟩
  have hentry : v.disk.entryAt p = some (.file h.file) := ha.grows.kept (hh.place hp)
  by_cases hplace : c.handle.place = some p
  · refine .inl ?_
    have hsame := ha.hosts.place hplace
    rw [hentry, Option.some.injEq, Entry.file.injEq] at hsame
    obtain ⟨file, place⟩ := h
    obtain ⟨⟨file', place'⟩, memory⟩ := c
    simp_all
  · refine .inr ⟨fun hfile => ?_, fun q hq => ?_⟩
    · cases hother : c.handle.place with
      | none => exact Nat.not_lt_of_le (ha.private? hother) (hfile ▸ hh.number)
      | some other =>
        have hthere := ha.hosts.place hother
        rw [hfile] at hthere
        exact hplace (hother.trans (congrArg some ((ha.grows.sound hw).tree.unique hthere hentry)))
    · obtain rfl := Option.some.inj (hp.symm.trans hq)
      cases hother : c.handle.place with
      | none => exact Handle.not_isBeside_of_private hother
      | some other =>
        rw [Handle.isBeside_iff hother]
        exact hapart other (ha.place.symm.trans hother)

/-! ## 3. Opening -/

/-- A store that was opened has the rows that were at its place before. -/
theorem Attached.tableAt_before (ha : Attached w path v w' c) (hw : w.IsSound)
    (hp : c.handle.place = some p) : v.table? c.handle = w.tableAt p := by
  have hthere := ha.hosts.place hp
  cases he : w.disk.entryAt p with
  | none =>
    rw [World.tableAt_of_none he, World.table?, ha.fresh hp he]
    rfl
  | some e =>
    have hkept := ha.grows.kept he
    rw [hthere, Option.some.injEq] at hkept
    subst hkept
    have hcontent : v.content c.handle = w.content c.handle := ha.grows.content hw he
    rw [World.table?_of_content hcontent, tableAt, he]
    rfl

/-- **Opening a store keeps all rows**, but for those of a database beside which another one is
opened. -/
theorem openAt_tableAt (hw : w.IsSound) (hrows : w.tableAt p = some rows) (timeout : Binary64)
    (hapart : ∀ other, place? w path = some other → ¬LiesBeside p other) :
    (openAt w path timeout).1.tableAt p = some rows := by
  obtain ⟨n, hh, htable⟩ := World.hosts_of_tableAt hw hrows
  have hentry := hh.place rfl
  rcases openAt_spec hw path timeout with ⟨e, -, hgrows⟩ | ⟨v, c, ha, hspec⟩
  · exact World.tableAt_after hw hgrows.disk hrows (by simp [hentry]) fun _ _ h => h
  have hv := ha.grows.sound hw
  have hrows' : v.tableAt p = some rows :=
    World.tableAt_after hw ha.grows.disk hrows (by simp [hentry]) fun _ _ h => h
  have hafter : World.Hosts (openAt w path timeout).1 c.handle :=
    ha.hosts.elsewhere ha.disk Handle.not_isBeside
  rcases (ha.spares hw hh rfl hapart).1 with hsame | ⟨hfile, hbeside⟩
  · have hp : c.handle.place = some p := congrArg Handle.place hsame
    rw [ha.hosts.tableAt_eq hp] at hrows'
    rw [hafter.tableAt_eq hp]
    cases hresult : (openAt w path timeout).2 with
    | ok s =>
      rw [hresult] at hspec
      obtain ⟨-, -, -, hspec⟩ := hspec
      rw [hspec, hrows']
      rfl
    | error e =>
      rw [hresult] at hspec
      exact (World.table?_of_content hspec.1).trans hrows'
  · refine World.tableAt_after hv ha.disk hrows' (hbeside p rfl) ?_
    rintro m hm rfl
    rw [ha.grows.kept hentry, Option.some.injEq, Entry.file.injEq] at hm
    exact hfile hm.symm

/-! ## 4. Reading and closing -/

variable {s : Store}

/-- Reading through a store writes no file, and the store can go on. -/
theorem use_readRows (ho : s.IsOpen w c) (q : Query) :
    ∃ c', s.IsOpen (s.use w fun w c => w.readRows c q).1 c' ∧ c'.handle = c.handle ∧
      w.disk.ChangesOnly c.handle.IsBeside (fun _ => False)
        (s.use w fun w c => w.readRows c q).1.disk := by
  have hlooks := World.readRows_looks ho.starts q
  rw [use_eq ho.connection]
  exact ⟨_, ⟨connection?_setConnection ho.connection hlooks.world.bound.connections _,
    starts_setConnection (hlooks.starts ho.starts) _⟩, hlooks.handle, hlooks.world.bound.disk⟩

/-- Closing a store keeps all rows of databases that do not lie beside its own. -/
theorem close_tableAt (hc : s.connection? w = some c) (hw : w.IsSound) (hh : w.Hosts c.handle)
    (hrows : w.tableAt p = some rows) (hp : ¬c.handle.IsBeside p) :
    (s.close w).tableAt p = some rows := by
  have hbound := close_bounded hc hw hh
  exact World.tableAt_after (w := s.setConnection w none) ⟨hw.tree, hw.cwd⟩ hbound.disk hrows hp
    fun _ _ h => h

end Store

end CompileJournal
