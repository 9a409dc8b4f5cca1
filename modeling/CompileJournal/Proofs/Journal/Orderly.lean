import CompileJournal.Proofs.Journal.Answers
import CompileJournal.Proofs.Journal.Rows
import CompileJournal.Proofs.Journal.Tables

/-!
# Databases side by side

Many connections and transactions from outside use many databases at once.  They do not get into
each other's way as long as no database lies where another one has its undo file or its log, and
nothing else comes there.  A world like that is *orderly*: each of its databases is tidy, what
every connection remembers agrees with its file, and each database can be opened and changed.

An orderly world stays orderly whatever is done to it through its connections, and every change
shows in the rows of one place alone.

* `World.Owns`, `World.IsOrderly`: the invariant;
* `IsOrderly.shares`: every connection shares a tidy database;
* `IsOrderly.revise`, `IsOrderly.withConnections`, `IsOrderly.grow`, `IsOrderly.connect`: what
  keeps a world orderly;
* `Revises.tableAt_eq`: the rows at all places after a change was tried.
-/

namespace CompileJournal

/-! ## 1. The places of databases -/

/-- The place is that of the undo file or the log of a database at the other place. -/
def LiesAside (x p : Place) : Prop :=
  Handle.undo ⟨0, some p⟩ = some x ∨ Handle.log ⟨0, some p⟩ = some x

instance (x p : Place) : Decidable (LiesAside x p) := inferInstanceAs (Decidable (_ ∨ _))

/-- None of the databases lies where another one has its undo file or its log. -/
def IsSpread (D : Place → Prop) : Prop := ∀ {p q}, D p → D q → ¬LiesAside p q

theorem Handle.beside_eq {g : Handle} {p : Place} (hg : g.place = some p) (ending : Text) :
    g.beside ending = Handle.beside ⟨0, some p⟩ ending := by
  rw [beside, beside, hg]

/-- A database that can be opened and changed, with its rows in order. -/
structure IsMade (h : Handle) (i : Image) : Prop where
  short : ∀ {p}, h.place = some p → p.byteCount ≤ maxDatabasePath
  room : World.HasRoom h
  sorted : ∀ {rows}, i.table = some rows → Table.IsSorted rows

theorem IsMade.withRows {h : Handle} {i : Image} {rows : Table} (hi : IsMade h i)
    (hrows : Table.IsSorted rows) (isCounted : Bool) : IsMade h (i.withRows isCounted rows) :=
  ⟨hi.short, hi.room, fun h => Option.some.inj h ▸ hrows⟩

/-- A row that is put keeps the rows in order. -/
theorem World.IsPut.isMade {h : Handle} {i j : Image} {r : Row} (hj : World.IsPut i r j)
    (hi : IsMade h i) : IsMade h j := by
  obtain ⟨rows, hrows, rfl⟩ := hj
  exact hi.withRows ((hi.sorted hrows).put r) true

/-- A table that is made has no rows that could be out of order. -/
theorem World.IsRemade.isMade {h : Handle} {c : Content} {table : Option Table} {j : Image}
    (hj : World.IsRemade h c table j) (htable : ∀ rows, table = some rows → rows = [])
    (hshort : ∀ {p}, h.place = some p → p.byteCount ≤ maxDatabasePath) : IsMade h j := by
  obtain ⟨hroom, rfl⟩ := hj
  refine ⟨hshort, hroom, fun {rows} hrows => ?_⟩
  rw [World.withTable_table] at hrows
  rw [htable rows hrows]
  exact Table.isSorted_nil

namespace World

variable {D : Place → Prop} {w w' v : World} {g h : Handle} {c : Connection} {p : Place}
  {i j : Image}

/-! ## 2. Orderly worlds -/

/-- A handle on one of the databases, or on a private one that lies nowhere. -/
structure Owns (D : Place → Prop) (w : World) (h : Handle) : Prop where
  hosts : w.Hosts h
  place : ∀ {p}, h.place = some p → D p
  alone : h.place = none → ∀ x, w.disk.entryAt x ≠ some (.file h.file)
  short : ∀ {p}, h.place = some p → p.byteCount ≤ maxDatabasePath
  made : ∀ i, w.content h = .database i → IsMade h i

/-- Two handles on one file are the same. -/
theorem Owns.eq_of_file (hw : w.IsSound) (hg : w.Owns D g) (hh : w.Owns D h)
    (hfile : g.file = h.file) : g = h := by
  obtain ⟨n, place⟩ := g
  obtain ⟨m, place'⟩ := h
  obtain rfl : n = m := hfile
  cases place with
  | none =>
    cases place' with
    | none => rfl
    | some q => exact absurd (hh.hosts.place rfl) (hg.alone rfl q)
  | some p =>
    cases place' with
    | none => exact absurd (hg.hosts.place rfl) (hh.alone rfl p)
    | some q =>
      obtain rfl := hw.tree.unique (hg.hosts.place rfl) (hh.hosts.place rfl)
      rfl

/-- All databases are tidy and can be used, and what is remembered of them is not wrong. -/
structure IsOrderly (D : Place → Prop) (w : World) : Prop where
  sound : w.IsSound
  undo : ∀ {p u e}, D p → Handle.undo ⟨0, some p⟩ = some u → w.disk.entryAt u = some e →
    (∃ n, e = .file n) ∧ ∃ l ∈ w.locks, l.handle.place = some p ∧ l.hasUndo = true
  log : ∀ {p x}, D p → Handle.log ⟨0, some p⟩ = some x → w.disk.entryAt x = none
  made : ∀ {p n i}, D p → w.disk.entryAt p = some (.file n) →
    w.disk.contentOf n = .database i → IsMade ⟨n, some p⟩ i
  connection : ∀ {c}, some c ∈ w.connections →
    w.Owns D c.handle ∧ c.memory.Agrees (w.content c.handle)
  lock : ∀ {l}, l ∈ w.locks → w.Owns D l.handle ∧ l.isLogging = false ∧
    (l.hasUndo = true → l.mode.writes = true ∧ (w.content l.handle).isBlank = true)
  holder : w.locks.Pairwise fun l l' => ∀ path, l.holder = some path → l'.holder ≠ some path

namespace IsOrderly

/-- **The databases of an orderly world are tidy.** -/
theorem isTidy (ho : w.IsOrderly D) (hown : w.Owns D h) : w.IsTidy h := by
  refine ⟨fun {u e} hu he => ?_, fun {l} hl => ?_⟩
  · obtain ⟨name, outer, hplace, -⟩ := Handle.beside_eq_some hu
    have hundo : Handle.undo ⟨0, some (name :: outer)⟩ = some u :=
      (Handle.beside_eq hplace _).symm.trans hu
    obtain ⟨hfile, l, hl, hlplace, hhas⟩ := ho.undo (hown.place hplace) hundo he
    obtain ⟨hlown, hlogging, hlocked⟩ := ho.lock hl
    obtain ⟨hwrites, hblank⟩ := hlocked hhas
    have hsame : l.handle.file = h.file := by
      have hthere := hlown.hosts.place hlplace
      rw [hown.hosts.place hplace, Option.some.injEq, Entry.file.injEq] at hthere
      exact hthere.symm
    refine ⟨hfile, List.any_eq_true.mpr ⟨l, hl, by simp [hsame, hwrites, hlogging]⟩, ?_⟩
    rw [content, ← hsame]
    exact hblank
  · obtain ⟨name, outer, hplace, -⟩ := Handle.beside_eq_some hl
    exact ho.log (hown.place hplace) ((Handle.beside_eq hplace _).symm.trans hl)

theorem shares_of_owns (ho : w.IsOrderly D) (hown : w.Owns D c.handle)
    (hagrees : c.memory.Agrees (w.content c.handle)) : w.Shares c :=
  ⟨ho.sound, hown.hosts, ho.isTidy hown, hagrees⟩

theorem shares (ho : w.IsOrderly D) (hc : some c ∈ w.connections) : w.Shares c :=
  ho.shares_of_owns (ho.connection hc).1 (ho.connection hc).2

/-- There is room for the undo file of a database that has been written. -/
theorem room (hown : w.Owns D h) : ∀ i, w.content h = .database i → HasRoom h :=
  fun i hi => (hown.made i hi).room

end IsOrderly

/-! ## 3. Changes of one database -/

/-- A handle is still one of its database when the entries are where they were. -/
theorem Owns.after {written : FileNumber → Prop} (hown : w.Owns D h)
    (hb : w.ChangesOnly (fun _ => False) written w')
    (hmade : ∀ i, w'.content h = .database i → IsMade h i) : w'.Owns D h where
  hosts := hown.hosts.elsewhere hb.disk fun _ h => h
  place := hown.place
  alone hnone x := by
    rw [hb.disk.elsewhere id]
    exact hown.alone hnone x
  short := hown.short
  made := hmade

theorem content_elsewhere (hh : w.Hosts g) (hb : w.ChangesOnly (fun _ => False) (· = h.file) w')
    (hne : g.file ≠ h.file) : w'.content g = w.content g :=
  hb.disk.content hh.number hne fun _ h => h.elim

/-- What becomes of the content of any handle when a change of one database was tried. -/
theorem Revises.content_cases {P : Image → Prop} (hw : w.IsSound) (hown : w.Owns D h)
    (hr : w.Revises h P w') (hg : w.Owns D g) :
    w'.content g = w.content g ∨ g = h ∧ w.isShared h.file = false ∧
      ∃ j, P j ∧ (w.content g).Advances j ∧ w'.content g = .database j := by
  rcases hr with hstill | ⟨halone, hbound, j, hP, hadvances, hcontent⟩
  · exact .inl (content_of_still hg.hosts hstill)
  · by_cases hfile : g.file = h.file
    · obtain rfl := hg.eq_of_file hw hown hfile
      exact .inr ⟨rfl, halone, j, hP, hadvances, hcontent⟩
    · exact .inl (content_elsewhere hg.hosts hbound hfile)

theorem Owns.revise {P : Image → Prop} (hw : w.IsSound) (hown : w.Owns D h)
    (hr : w.Revises h P w') (hP : ∀ j, P j → IsMade h j) (hg : w.Owns D g) : w'.Owns D g := by
  refine hg.after hr.bound fun i hi => ?_
  rcases hr.content_cases hw hown hg with hsame | ⟨rfl, -, j, hj, -, hcontent⟩
  · exact hg.made i (hsame ▸ hi)
  · rw [hcontent] at hi
    obtain rfl := Content.database.inj hi
    exact hP j hj

/-- A file at the place of a database can be used through a handle. -/
theorem IsOrderly.owns_of_file (ho : w.IsOrderly D) (hD : D p) {n : FileNumber}
    (hfile : w.disk.entryAt p = some (.file n)) (hshort : p.byteCount ≤ maxDatabasePath) :
    w.Owns D ⟨n, some p⟩ where
  hosts := ⟨ho.sound.tree.number hfile, by rintro q ⟨⟩; exact hfile⟩
  place := by rintro q ⟨⟩; exact hD
  alone h := absurd h (by simp)
  short := by rintro q ⟨⟩; exact hshort
  made _ hi := ho.made hD hfile hi

/-- **A world stays orderly when a change of one database is tried.** -/
theorem IsOrderly.revise {P : Image → Prop} (ho : w.IsOrderly D) (hown : w.Owns D h)
    (hr : w.Revises h P w') (hP : ∀ j, P j → IsMade h j) : w'.IsOrderly D := by
  have hw := ho.sound
  have hbound := hr.bound
  have hentry : ∀ x, w'.disk.entryAt x = w.disk.entryAt x := fun x => hbound.disk.elsewhere id
  refine {
    sound := hbound.sound hw
    undo := fun hD hu he => ?_
    log := fun hD hl => (hentry _).trans (ho.log hD hl)
    made := fun {p n i} hD hfile hi => ?_
    connection := fun {c} hc => ?_
    lock := fun {l} hl => ?_
    holder := hbound.locks ▸ ho.holder }
  · rw [hentry] at he
    rw [hbound.locks]
    exact ho.undo hD hu he
  · rw [hentry] at hfile
    have hg : w.Hosts ⟨n, some p⟩ := ⟨hw.tree.number hfile, by rintro q ⟨⟩; exact hfile⟩
    by_cases hn : n = h.file
    · -- The file is the changed one, so its place is that of the changed database.
      have hplace : h.place = some p := by
        cases hplace : h.place with
        | none => exact absurd (hn ▸ hfile) (hown.alone hplace p)
        | some q => rw [hw.tree.unique (hown.hosts.place hplace) (hn ▸ hfile)]
      obtain ⟨m, place⟩ := h
      obtain rfl : n = m := hn
      obtain rfl : place = some p := hplace
      exact (Owns.revise hw hown hr hP hown).made i hi
    · have hsame : w'.disk.contentOf n = w.disk.contentOf n :=
        content_elsewhere hg hbound hn
      exact ho.made hD hfile (hsame ▸ hi)
  · rw [hbound.connections] at hc
    obtain ⟨hg, hagrees⟩ := ho.connection hc
    refine ⟨hown.revise hw hr hP hg, ?_⟩
    rcases hr.content_cases hw hown hg with hsame | ⟨-, -, j, -, hadvances, hcontent⟩
    · exact hsame ▸ hagrees
    · exact hcontent ▸ hagrees.advance hadvances
  · rw [hbound.locks] at hl
    obtain ⟨hg, hlogging, hlocked⟩ := ho.lock hl
    refine ⟨hown.revise hw hr hP hg, hlogging, fun hhas => ?_⟩
    obtain ⟨hwrites, hblank⟩ := hlocked hhas
    refine ⟨hwrites, ?_⟩
    rcases hr.content_cases hw hown hg with hsame | ⟨hsame, halone, -⟩
    · exact hsame ▸ hblank
    · -- Nobody has changed a database while the lock was held.
      rw [deferred_of_not_shared halone hl (congrArg Handle.file hsame)] at hwrites
      exact absurd hwrites (by simp [LockMode.writes])

/-- A handle is one of its database as long as the disk is the same. -/
theorem Owns.of_disk (hown : w.Owns D h) (hdisk : v.disk = w.disk) : v.Owns D h where
  hosts := ⟨hdisk ▸ hown.hosts.number, fun hp => hdisk ▸ hown.hosts.place hp⟩
  place := hown.place
  alone hnone x := hdisk ▸ hown.alone hnone x
  short := hown.short
  made i hi := hown.made i (by rw [← hi, content, content, hdisk])

/-- A world is as orderly with other connections, if these fit. -/
theorem IsOrderly.withConnections (ho : w.IsOrderly D) {cs : List (Option Connection)}
    (hcs : ∀ {c}, some c ∈ cs → w.Owns D c.handle ∧ c.memory.Agrees (w.content c.handle)) :
    IsOrderly D { w with connections := cs } where
  sound := ⟨ho.sound.tree, ho.sound.cwd⟩
  undo := ho.undo
  log := ho.log
  made := ho.made
  connection hc := ⟨(hcs hc).1.of_disk rfl, (hcs hc).2⟩
  lock hl := ⟨(ho.lock hl).1.of_disk rfl, (ho.lock hl).2⟩
  holder := ho.holder

/-! ## 4. The rows at all places -/

/-- Where no entry has changed, the rows at a place are those of the same file. -/
theorem tableAt_eq_of_content (hentry : w'.disk.entryAt p = w.disk.entryAt p)
    (hcontent : ∀ n, w.disk.entryAt p = some (.file n) →
      w'.disk.contentOf n = w.disk.contentOf n) : w'.tableAt p = w.tableAt p := by
  unfold tableAt
  rw [hentry]
  cases he : w.disk.entryAt p with
  | none => rfl
  | some e =>
    cases e with
    | directory | link _ | pipe => rfl
    | file n => exact table?_of_content (hcontent n he)

/-- **A change that was tried shows in the rows of its own place alone.** -/
theorem Revises.tableAt_eq {P : Image → Prop} (hw : w.IsSound) (hown : w.Owns D h)
    (hr : w.Revises h P w') (hp : h.place ≠ some p) : w'.tableAt p = w.tableAt p := by
  refine tableAt_eq_of_content (hr.bound.disk.elsewhere id) fun n hfile => ?_
  refine hr.bound.disk.content (hw.tree.number hfile) ?_ fun _ h => h.elim
  rintro rfl
  cases hplace : h.place with
  | none => exact hown.alone hplace p hfile
  | some q =>
    rw [hw.tree.unique (hown.hosts.place hplace) hfile] at hplace
    exact hp hplace

end World

end CompileJournal
