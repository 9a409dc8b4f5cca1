import CompileJournal.Proofs.Journal.Using

/-!
# Opening and using stores in an orderly world

Opening a store makes directories, then perhaps a file, then perhaps the table.  Each of these
steps keeps the world orderly, if the path leads to one of the databases and no directory comes
where one of them has its undo file or its log.  After that every operation of the store is one
turn of its connection, and what the turn does is all that changes.

* `IsOrderly.grow`, `IsOrderly.addsFile`, `IsOrderly.connect`: what comes with a new connection;
* `openAt_orderly`: a store that is opened, with the rows that were there;
* `use_orderly`, `close_orderly`: the operations of a store.
-/

namespace CompileJournal

namespace World

variable {D : Place → Prop} {w w' v : World} {g h : Handle} {c : Connection} {p : Place}
  {path : Text}

/-! ## 1. New directories and new files -/

/-- Where only directories have come, every file was there before. -/
theorem file_of_grows (hv : v.IsSound) (hgrows : w.Grows v)
    (hcontents : v.disk.contents = w.disk.contents) {x : Place} {n : FileNumber}
    (hx : v.disk.entryAt x = some (.file n)) : w.disk.entryAt x = some (.file n) := by
  rcases hgrows.disk.file hx with hfile | hle
  · exact hfile
  · have hlt := hv.tree.number hx
    rw [hcontents] at hlt
    exact absurd hlt (Nat.not_lt.mpr hle)

theorem contentOf_eq (hcontents : v.disk.contents = w.disk.contents) (n : FileNumber) :
    v.disk.contentOf n = w.disk.contentOf n := by
  rw [Disk.contentOf, Disk.contentOf, hcontents]

theorem Owns.grow (hw : w.IsSound) (hgrows : w.Grows v)
    (hcontents : v.disk.contents = w.disk.contents) (hown : w.Owns D h) : v.Owns D h where
  hosts := hown.hosts.elsewhere hgrows.disk fun hp => by simp [hown.hosts.place hp]
  place := hown.place
  alone hnone x hx := hown.alone hnone x (file_of_grows (hgrows.sound hw) hgrows hcontents hx)
  short := hown.short
  made i hi := hown.made i ((contentOf_eq hcontents _).symm.trans hi)

/-- **New directories leave a world orderly** if none of them comes aside a database. -/
theorem IsOrderly.grow (ho : w.IsOrderly D) (hgrows : w.Grows v)
    (hcontents : v.disk.contents = w.disk.contents)
    (haside : ∀ {p x}, D p → LiesAside x p → v.disk.entryAt x = w.disk.entryAt x) :
    v.IsOrderly D where
  sound := hgrows.sound ho.sound
  undo hD hu he := by
    rw [haside hD (.inl hu)] at he
    rw [hgrows.locks]
    exact ho.undo hD hu he
  log hD hl := (haside hD (.inr hl)).trans (ho.log hD hl)
  made hD hfile hi :=
    ho.made hD (file_of_grows (hgrows.sound ho.sound) hgrows hcontents hfile)
      ((contentOf_eq hcontents _).symm.trans hi)
  connection hc := by
    rw [hgrows.connections] at hc
    obtain ⟨hown, hagrees⟩ := ho.connection hc
    rw [← show v.content _ = w.content _ from contentOf_eq hcontents _] at hagrees
    exact ⟨hown.grow ho.sound hgrows hcontents, hagrees⟩
  lock hl := by
    rw [hgrows.locks] at hl
    obtain ⟨hown, hlogging, hlocked⟩ := ho.lock hl
    rw [← show v.content _ = w.content _ from contentOf_eq hcontents _] at hlocked
    exact ⟨hown.grow ho.sound hgrows hcontents, hlogging, hlocked⟩
  holder := hgrows.locks ▸ ho.holder

theorem AddsFile.contentOf_lt (ha : w.AddsFile h v) {n : FileNumber}
    (hn : n < w.disk.contents.length) : v.disk.contentOf n = w.disk.contentOf n := by
  rw [Disk.contentOf, Disk.contentOf, ha.contents, List.getElem?_append_left hn]

/-- A file that was there before is not the new one. -/
theorem AddsFile.file_of_lt (ha : w.AddsFile h v) (hh : v.Hosts h) {x : Place} {n : FileNumber}
    (hx : v.disk.entryAt x = some (.file n)) (hn : n < w.disk.contents.length) :
    w.disk.entryAt x = some (.file n) := by
  by_cases hplace : h.place = some x
  · rw [hh.place hplace, Option.some.injEq, Entry.file.injEq] at hx
    rw [← hx, ha.number] at hn
    exact absurd hn (Nat.lt_irrefl _)
  · rw [← ha.elsewhere hplace]
    exact hx

theorem Owns.addsFile (hgrows : w.Grows v) (ha : w.AddsFile h v) (hh : v.Hosts h)
    (hown : w.Owns D g) : v.Owns D g where
  hosts := hown.hosts.elsewhere hgrows.disk fun hp => by simp [hown.hosts.place hp]
  place := hown.place
  alone hnone x hx := hown.alone hnone x (ha.file_of_lt hh hx hown.hosts.number)
  short := hown.short
  made i hi := hown.made i ((ha.contentOf_lt hown.hosts.number).symm.trans hi)

/-- **A new file for one of the databases leaves a world orderly.** -/
theorem IsOrderly.addsFile (ho : w.IsOrderly D) (hspread : IsSpread D) (hgrows : w.Grows v)
    (ha : w.AddsFile h v) (hh : v.Hosts h) (hD : ∀ {p}, h.place = some p → D p)
    (hshort : ∀ {p}, h.place = some p → p.byteCount ≤ maxDatabasePath) :
    v.IsOrderly D ∧ v.Owns D h := by
  have haside : ∀ {p x}, D p → LiesAside x p → v.disk.entryAt x = w.disk.entryAt x := by
    intro p x hp hx
    exact ha.elsewhere fun hplace => hspread (hD hplace) hp hx
  have hold : ∀ {g}, w.Owns D g → v.content g = w.content g := fun hg =>
    ha.contentOf_lt hg.hosts.number
  refine ⟨?_, hh, hD, fun hnone x hx => ?_, hshort, fun i hi => ?_⟩
  · refine {
      sound := hgrows.sound ho.sound
      undo := fun hp hu he => ?_
      log := fun hp hl => (haside hp (.inr hl)).trans (ho.log hp hl)
      made := fun {p n i} hp hfile hi => ?_
      connection := fun {c} hc => ?_
      lock := fun {l} hl => ?_
      holder := hgrows.locks ▸ ho.holder }
    · rw [haside hp (.inl hu)] at he
      rw [hgrows.locks]
      exact ho.undo hp hu he
    · by_cases hplace : h.place = some p
      · have hthere := hh.place hplace
        rw [hfile, Option.some.injEq, Entry.file.injEq] at hthere
        rw [hthere, ha.content] at hi
        exact absurd hi (by simp)
      · rw [ha.elsewhere hplace] at hfile
        exact ho.made hp hfile ((ha.contentOf_lt (ho.sound.tree.number hfile)).symm.trans hi)
    · rw [hgrows.connections] at hc
      obtain ⟨hown, hagrees⟩ := ho.connection hc
      exact ⟨hown.addsFile hgrows ha hh, hold hown ▸ hagrees⟩
    · rw [hgrows.locks] at hl
      obtain ⟨hown, hlogging, hlocked⟩ := ho.lock hl
      exact ⟨hown.addsFile hgrows ha hh, hlogging, hold hown ▸ hlocked⟩
  · rw [ha.elsewhere (by simp [hnone])] at hx
    have hlt := ho.sound.tree.number hx
    rw [ha.number] at hlt
    exact absurd hlt (Nat.lt_irrefl _)
  · rw [content, ha.content] at hi
    exact absurd hi (by simp)

/-- A path that, as the path of a database, leads to one of the databases. -/
def LeadsInto (D : Place → Prop) (w : World) (path : Text) : Prop :=
  isPrivateDatabase path = false → ∀ p, w.databasePlace? path = some p → D p

theorem leadsInto_of_place (h : w.databasePlace? path = some p) : LeadsInto (· = p) w path :=
  fun _ _ hq => (Option.some.inj (h.symm.trans hq)).symm

/-- What is left when a connection was made. -/
structure Joins (D : Place → Prop) (w : World) (v : World) (c : Connection) : Prop where
  orderly : v.IsOrderly D
  owns : v.Owns D c.handle
  memory : c.memory = {}
  grows : w.Grows v
  added : v = w ∨ w.AddsFile c.handle v
  private? : c.handle.place = none → w.AddsFile c.handle v

/-- **A new connection leaves a world orderly.** -/
theorem IsOrderly.connect (ho : w.IsOrderly D) (hspread : IsSpread D)
    (hin : LeadsInto D w path) (h : w.connect path = .ok (v, c)) : Joins D w v c := by
  have hc := connect_ok ho.sound h
  have hD : ∀ {p}, c.handle.place = some p → D p := by
    intro p hp
    obtain ⟨hprivate, hleads⟩ := hc.of_place hp
    exact hin hprivate p hleads
  rcases hc.found_or_added with ⟨rfl, p, hp⟩ | ha
  · have hsome : c.handle.place ≠ none := by simp [hp]
    refine ⟨ho, ⟨hc.hosts, hD, fun hnone => absurd hnone hsome, hc.room, fun i hi => ?_⟩,
      hc.memory, hc.grows, .inl rfl, fun hnone => absurd hnone hsome⟩
    have hmade := ho.made (hD hp) (hc.hosts.place hp) hi
    rw [← hp] at hmade
    exact hmade
  · obtain ⟨hv, hown⟩ := ho.addsFile hspread hc.grows ha hc.hosts hD hc.room
    exact ⟨hv, hown, hc.memory, hc.grows, .inr ha, fun _ => ha⟩

theorem Joins.owns_of_owns (hj : Joins D w v c) (hown : w.Owns D g) : v.Owns D g := by
  rcases hj.added with rfl | ha
  · exact hown
  · exact hown.addsFile hj.grows ha hj.owns.hosts

theorem Joins.content_eq (hj : Joins D w v c) (hown : w.Owns D g) :
    v.content g = w.content g := by
  rcases hj.added with rfl | ha
  · rfl
  · exact ha.contentOf_lt hown.hosts.number

/-- The handle of a private database is new. -/
theorem Joins.ne_of_private (hj : Joins D w v c) (hown : w.Owns D g) (hg : g.place = none) :
    g ≠ c.handle := by
  rintro rfl
  have hlt := hown.hosts.number
  rw [(hj.private? hg).number] at hlt
  exact absurd hlt (Nat.lt_irrefl _)

/-- A new connection shows the rows that were there. -/
theorem Joins.tableAt_eq (hj : Joins D w v c) (hw : w.IsSound) (p : Place) :
    v.tableAt p = w.tableAt p := by
  rcases hj.added with rfl | ha
  · rfl
  by_cases hp : c.handle.place = some p
  · rw [hj.owns.hosts.tableAt_eq hp, tableAt_of_none (ha.place hp), table?, content, ha.content]
    rfl
  · exact tableAt_eq_of_content (ha.elsewhere hp) fun n hn => ha.contentOf_lt (hw.tree.number hn)

/-- Directories have no rows. -/
theorem tableAt_of_grows (hw : w.IsSound) (hgrows : w.Grows v)
    (hcontents : v.disk.contents = w.disk.contents) (p : Place) :
    v.tableAt p = w.tableAt p := by
  cases he : w.disk.entryAt p with
  | some e =>
    exact tableAt_eq_of_content ((hgrows.kept he).trans he.symm) fun n _ =>
      contentOf_eq hcontents n
  | none =>
    rw [tableAt_of_none he, tableAt]
    split
    · next n hfile =>
      rw [file_of_grows (hgrows.sound hw) hgrows hcontents hfile] at he
      exact absurd he (by simp)
    · rfl

/-- A new connection is kept under the next number. -/
theorem IsOrderly.attach (ho : w.IsOrderly D) (hown : w.Owns D c.handle) (hc : c.memory = {}) :
    IsOrderly D (Store.attach w c) := by
  refine ho.withConnections fun {c'} hc' => ?_
  rcases List.mem_append.mp hc' with hc' | hc'
  · exact ho.connection hc'
  · rw [Option.some.inj (List.mem_singleton.mp hc')]
    exact ⟨hown, hc ▸ Memory.agrees_empty _⟩

end World

namespace Store

open World (Joins)

variable {D : Place → Prop} {w w' v : World} {g h : Handle} {c : Connection} {p : Place}
  {s : Store} {path : Text} {r : Except Failure Unit}

/-! ## 2. Opening a store -/

/-- A path that stands for one of the databases, or for a private one, and for which no directory
has to be made aside one of them. -/
structure OpensInto (D : Place → Prop) (w : World) (path : Text) : Prop where
  place : ∀ {p}, place? w path = some p → D p
  aside : ∀ {p x}, D p → LiesAside x p →
    (withDirectories w path).disk.entryAt x = w.disk.entryAt x

theorem opensInto_of_place (h : place? w path = some p) (hsame : withDirectories w path = w) :
    OpensInto (· = p) w path :=
  ⟨fun hq => (Option.some.inj (h.symm.trans hq)).symm, fun _ _ => by rw [hsame]⟩

/-- What an attempt to open a store at a place leaves, or to open a private one.  All rows are as
they were, except that a table may have been made where none was. -/
structure Opens (D : Place → Prop) (w : World) (target : Option Place) (w' : World) : Prop where
  orderly : w'.IsOrderly D
  locks : w'.locks = w.locks
  cwd : w'.cwd = w.cwd
  connections : w.connections <+: w'.connections
  owns : ∀ {g}, w.Owns D g → w'.Owns D g
  image : ∀ {g}, w.Owns D g → (∃ i, w.content g = .database i) → ∃ i, w'.content g = .database i
  tableAt : ∀ p, w'.tableAt p = w.tableAt p ∨
    target = some p ∧ w.tableAt p = none ∧ w'.tableAt p = some []
  alone : ∀ {g}, w.Owns D g → g.place = none → w'.table? g = w.table? g

/-- A store that was opened is on its database, with the rows that were there, or on a new private
one without rows. -/
structure IsOpened (w : World) (target : Option Place) (w' : World) (s : Store) (h : Handle) :
    Prop where
  isOn : s.IsOn w' h
  place : h.place = target
  rows : ∀ {p}, h.place = some p → w'.tableAt p = some ((w.tableAt p).getD [])
  alone : h.place = none → w.disk.contents.length ≤ h.file ∧ w'.table? h = some []

/-- Opening a store after directories were made. -/
theorem Opens.trans {target : Option Place} (h : Opens D w target v)
    (hrows : ∀ p, v.tableAt p = w.tableAt p) (h' : Opens D v target w') :
    Opens D w target w' where
  orderly := h'.orderly
  locks := h'.locks.trans h.locks
  cwd := h'.cwd.trans h.cwd
  connections := h.connections.trans h'.connections
  owns hg := h'.owns (h.owns hg)
  image hg hi := h'.image (h.owns hg) (h.image hg hi)
  tableAt p := by
    rw [← hrows]
    exact h'.tableAt p
  alone hg hnone := (h'.alone (h.owns hg) hnone).trans (h.alone hg hnone)

/-- The directories above a database leave everything else as it is. -/
theorem opens_withDirectories (ho : w.IsOrderly D) (hin : OpensInto D w path) :
    Opens D w (place? w path) (withDirectories w path) ∧
      ∀ p, (withDirectories w path).tableAt p = w.tableAt p := by
  have hgrows := withDirectories_grows ho.sound path
  have hcontents := withDirectories_contents ho.sound path
  have hcontent : ∀ g, (withDirectories w path).content g = w.content g :=
    fun g => World.contentOf_eq hcontents _
  have hrows := World.tableAt_of_grows ho.sound hgrows hcontents
  refine ⟨⟨ho.grow hgrows hcontents hin.aside, hgrows.locks, hgrows.cwd,
    hgrows.connections.symm ▸ List.prefix_refl _,
    fun {g} hg => hg.grow ho.sound hgrows hcontents, fun {g} _ hi => ?_, fun p => .inl (hrows p),
    fun {g} _ _ => World.table?_of_content (hcontent g)⟩, hrows⟩
  rwa [hcontent]

/-- Making the table through a store that has just been attached. -/
theorem use_makeTable (ho : w.IsOrderly D) (hc : s.connection? w = some c)
    (hfresh : c.memory = {}) :
    (s.use w World.makeTable).1.IsOrderly D ∧ s.Uses w c.handle (s.use w World.makeTable).1 ∧
      (match (s.use w World.makeTable).2 with
      | .ok () => (∃ i, (s.use w World.makeTable).1.content c.handle = .database i) ∧
          (s.use w World.makeTable).1.table? c.handle = some ((w.table? c.handle).getD [])
      | .error _ => (s.use w World.makeTable).1.table? c.handle = w.table? c.handle) ∧
      ∀ rows, w.table? c.handle = some rows → (s.use w World.makeTable).2 =
        if w.isClosedOff c.handle.file then .error (s.failure .locked) else .ok () := by
  have hmem := mem_of_connection? hc
  have hown := (ho.connection hmem).1
  have hshares := ho.shares hmem
  obtain ⟨hattempts, hok, -⟩ := World.makeTable_shares hshares (World.IsOrderly.room hown)
  have hmade : ∀ j, World.IsRemade c.handle (w.content c.handle) (some []) j →
      IsMade c.handle j := fun j hj => hj.isMade (fun _ h => (Option.some.inj h).symm) hown.short
  obtain ⟨horderly, huses⟩ := use_orderly ho hc hattempts hmade
  refine ⟨horderly, huses, ?_, fun rows hrows => ?_⟩
  · have hstarts : World.Starts w c := ⟨ho.sound, hown.hosts, by simp [hfresh, Memory.Recalls]⟩
    have hspec := (World.makeTable_spec hstarts).2
    rw [use_eq hc]
    cases hresult : (w.makeTable c).result with
    | ok u =>
      rw [hresult] at hspec
      obtain ⟨j, hj, -⟩ := hok hresult
      exact ⟨⟨j, hj⟩, hspec.1⟩
    | error f =>
      rw [hresult] at hspec
      exact World.table?_of_content hspec
  · obtain ⟨i, hi, htable⟩ := World.content_of_table hrows
    rw [use_eq hc]
    simp only [World.makeTable_image hshares hi (by rw [htable]; rfl)]
    split
    · rfl
    · rfl

/-- A connection that has joined, and through which the table was asked for. -/
theorem opens_of_joins (ho : w.IsOrderly D) (hj : Joins D w v c)
    (hs : s.connection = v.connections.length)
    (hr : s.use (attach v c) World.makeTable = (w', r)) :
    Opens D w c.handle.place w' ∧
      match r with
      | .ok () => IsOpened w c.handle.place w' s c.handle
      | .error _ => ∀ p, w'.tableAt p = w.tableAt p := by
  have hw := ho.sound
  have ho₁ := hj.orderly.attach hj.owns hj.memory
  have hconnection := connection?_attach (c := c) hs
  obtain ⟨ho₂, huses, hresult, -⟩ := use_makeTable ho₁ hconnection hj.memory
  have hbefore : (attach v c).table? c.handle = v.table? c.handle := rfl
  rw [hr, hbefore] at hresult
  rw [hr] at ho₂ huses
  have hown₁ : (attach v c).Owns D c.handle := hj.owns.of_disk rfl
  have hw₁ := ho₁.sound
  obtain ⟨c', hc', hset⟩ := huses.connection
  have hconnections : w'.connections = w.connections ++ [some c'] := by
    rw [hset, ← hj.grows.connections, hs]
    simp [attach]
  have hcopen : s.connection? w' = some c' := by
    rw [connection?, hset, List.getElem?_set_self (lt_length hconnection)]
    rfl
  -- The rows of the database are told by the table that was made, all others are as they were.
  have hthere : ∀ {p}, c.handle.place = some p →
      w'.tableAt p = w'.table? c.handle ∧ v.table? c.handle = w.tableAt p := by
    intro p hp
    have hhosts : w'.Hosts c.handle :=
      hc' ▸ (ho₂.connection (mem_of_connection? hcopen)).1.hosts
    exact ⟨hhosts.tableAt_eq hp, (hj.owns.hosts.tableAt_eq hp).symm.trans (hj.tableAt_eq hw p)⟩
  have hother : ∀ {p}, c.handle.place ≠ some p → w'.tableAt p = w.tableAt p := fun hp =>
    (huses.tableAt_eq hw₁ hown₁ hp).trans (hj.tableAt_eq hw _)
  have hold : ∀ {g}, w.Owns D g → (attach v c).Owns D g := fun hg =>
    (hj.owns_of_owns hg).of_disk rfl
  refine ⟨⟨ho₂, huses.locks.trans hj.grows.locks, huses.cwd.trans hj.grows.cwd,
    hconnections ▸ List.prefix_append _ _,
    fun {g} hg => huses.owns hw₁ ho₂ (lt_length hconnection) hown₁ (hold hg),
    fun {g} hg hi => ?_, fun p => ?_, fun {g} hg hnone => ?_⟩, ?_⟩
  · refine huses.image hw₁ hown₁ (hold hg) ?_
    obtain ⟨i, hi⟩ := hi
    exact ⟨i, (hj.content_eq hg).trans hi⟩
  · by_cases hp : c.handle.place = some p
    · obtain ⟨hafter, hbefore⟩ := hthere hp
      rw [hafter, ← hbefore]
      cases r with
      | error e => exact .inl hresult
      | ok u =>
        have hrows := hresult.2
        cases hv : v.table? c.handle with
        | none =>
          refine .inr ⟨hp, rfl, ?_⟩
          rw [hrows, hv]
          rfl
        | some rows =>
          refine .inl ?_
          rw [hrows, hv]
          rfl
    · exact .inl (hother hp)
  · have hne := hj.ne_of_private hg hnone
    exact (huses.table?_eq hw₁ hown₁ (hold hg) hne).trans
      (World.table?_of_content (hj.content_eq hg))
  cases r with
  | error e =>
    intro p
    by_cases hp : c.handle.place = some p
    · obtain ⟨hafter, hbefore⟩ := hthere hp
      rw [hafter, ← hbefore]
      exact hresult
    · exact hother hp
  | ok u =>
    obtain ⟨himage, hrows⟩ := hresult
    refine ⟨⟨⟨c', hcopen, hc'⟩, himage⟩, rfl, fun {p} hp => ?_, fun hnone => ?_⟩
    · obtain ⟨hafter, hbefore⟩ := hthere hp
      rw [hafter, ← hbefore, hrows]
    · have ha := hj.private? hnone
      refine ⟨Nat.le_of_eq ha.number.symm, ?_⟩
      have hempty : v.table? c.handle = none := by
        rw [World.table?, World.content, ha.content]
        rfl
      rw [hrows, hempty]
      rfl

/-- **Opening a store** leaves an orderly world.  If it is opened, it is on the database of its
path, with the rows that were there; and no rows are lost in any case. -/
theorem openAt_orderly (ho : w.IsOrderly D) (hspread : IsSpread D) (hin : OpensInto D w path)
    (timeout : Binary64) :
    Opens D w (place? w path) (openAt w path timeout).1 ∧
      match (openAt w path timeout).2 with
      | .ok s => s = ⟨path, timeout, w.connections.length⟩ ∧
          (place? w path = none → isPrivateDatabase path = true) ∧
          ∃ h, IsOpened w (place? w path) (openAt w path timeout).1 s h
      | .error _ => ∀ p, (openAt w path timeout).1.tableAt p = w.tableAt p := by
  obtain ⟨hopens, hsame⟩ := opens_withDirectories ho hin
  rcases openAt_cases ho.sound path timeout with ⟨e, heq⟩ | ⟨v, c, hcomes⟩
  · rw [heq]
    exact ⟨hopens, hsame⟩
  have hconnects := hcomes.connects
  have hleads : World.LeadsInto D (withDirectories w path) path := by
    intro hprivate p hp
    obtain ⟨q, hq, hleads⟩ := hconnects.exists_place hprivate
    obtain rfl := Option.some.inj (hleads.symm.trans hp)
    exact hin.place (hcomes.place.symm.trans hq)
  have hj := hopens.orderly.connect hspread hleads hcomes.connect
  have hlength : v.connections.length = w.connections.length := by
    rw [hj.grows.connections, (withDirectories_grows ho.sound path).connections]
  rw [hcomes.opened]
  cases hr : Store.use (attach v c) ⟨path, timeout, v.connections.length⟩ World.makeTable with
  | mk w' r =>
  obtain ⟨hopens', hopened⟩ := opens_of_joins hopens.orderly hj rfl hr
  rw [hcomes.place] at hopens' hopened
  refine ⟨hopens.trans hsame hopens', ?_⟩
  cases r with
  | error e => exact fun p => (hopened p).trans (hsame p)
  | ok u =>
    refine ⟨by rw [← hlength],
      fun hnone => (hconnects.of_private (hcomes.place.trans hnone)).1, c.handle, hopened.isOn,
      hopened.place, fun hp => ?_, fun hnone => ?_⟩
    · rw [hopened.rows hp, hsame]
    · obtain ⟨hle, hrows⟩ := hopened.alone hnone
      exact ⟨withDirectories_contents ho.sound path ▸ hle, hrows⟩

/-- **A database with the table can be opened again**, unless a transaction from outside has
closed it off. -/
theorem openAt_of_table (ho : w.IsOrderly D) (hin : OpensInto D w path)
    (hplace : place? w path = some p) (hnul : Text.nul ∉ path) (hh : w.Hosts h)
    (hp : h.place = some p) {rows : Table} (hrows : w.table? h = some rows)
    (timeout : Binary64) : (openAt w path timeout).2 =
      if w.isClosedOff h.file then .error (.contention timeout path)
      else .ok ⟨path, timeout, w.connections.length⟩ := by
  obtain ⟨l, hl, hd, hprivate, hleads⟩ := steps_of_place? hplace
  obtain ⟨hopens, -⟩ := opens_withDirectories ho hin
  have hgrows := withDirectories_grows ho.sound path
  have hwd := hopens.orderly.sound
  have hentry := hh.place hp
  have hh' : (withDirectories w path).Hosts h :=
    hh.elsewhere hgrows.disk fun hq => by simp [hh.place hq]
  have hrows' : (withDirectories w path).table? h = some rows :=
    (World.table?_of_content (hgrows.content ho.sound hentry)).trans hrows
  obtain ⟨i, hi, -⟩ := World.content_of_table hrows
  obtain ⟨n, place⟩ := h
  obtain rfl : place = some p := hp
  have hmade := ho.made (hin.place hplace) hentry hi
  have hconnect := connect_of_place hprivate hnul hleads hwd hh' rfl (hmade.short rfl)
  have hown : World.Owns D (withDirectories w path) ⟨n, some p⟩ :=
    hopens.orderly.owns_of_file (hin.place hplace) (hh'.place rfl) (hmade.short rfl)
  obtain ⟨-, -, -, hresult⟩ := use_makeTable
    (s := ⟨path, timeout, (withDirectories w path).connections.length⟩)
    (hopens.orderly.attach (c := { handle := ⟨n, some p⟩ }) hown rfl) (connection?_attach rfl) rfl
  have hclosed : (attach (withDirectories w path) { handle := ⟨n, some p⟩ }).isClosedOff n =
      w.isClosedOff n := by
    rw [World.isClosedOff, World.isClosedOff, ← hgrows.locks]
    rfl
  rw [(comesToTable ho.sound hl hd hconnect timeout).opened]
  simp only [hresult rows hrows', hclosed]
  rw [hgrows.connections]
  split
  · rfl
  · rfl

end Store

end CompileJournal
