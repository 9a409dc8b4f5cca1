import CompileJournal.Journal.Store
import CompileJournal.Proofs.Journal.Calm

/-!
# Open stores

A store is a number under which the world keeps a connection, so the lemmas on accesses are
carried over to stores by following the connection through the list.  What is added here is the
opening of a store: the directories, the file and the table.

* `openAt_cases`: how far opening gets;
* `openAt_spec`: what opening leaves;
* `close_bounded`: what closing leaves;
* `put_recorded`: what recording leaves when it succeeds;
* `put_of_isReady`: a store that is ready records, and moves nothing.
-/

namespace CompileJournal

open World (Starts Knows IsReady)

namespace Store

variable {w w' : World} {s : Store} {c : Connection} {α : Type}

/-! ## 1. The connection of a store -/

/-- A store that is open, with its connection. -/
structure IsOpen (w : World) (s : Store) (c : Connection) : Prop where
  connection : s.connection? w = some c
  starts : Starts w c

theorem use_eq (h : s.connection? w = some c) (f : World → Connection → Turn α) :
    s.use w f = (s.setConnection (f w c).world (some (f w c).connection),
      (f w c).result.mapError s.failure) := by
  rw [use, h]

theorem lt_length (h : s.connection? w = some c) : s.connection < w.connections.length := by
  unfold connection? at h
  cases hc : w.connections[s.connection]? with
  | none =>
    rw [hc] at h
    exact absurd h (by simp)
  | some c? => exact (List.getElem?_eq_some_iff.mp hc).1

theorem connection?_setConnection (h : s.connection? w = some c)
    (hw : w'.connections = w.connections) (c? : Option Connection) :
    s.connection? (s.setConnection w' c?) = c? := by
  have hlt : s.connection < w'.connections.length := hw ▸ lt_length h
  simp [connection?, setConnection, hlt]

theorem starts_setConnection (h : Starts w c) (c? : Option Connection) :
    Starts (s.setConnection w c?) c :=
  ⟨⟨h.sound.tree, h.sound.cwd⟩, ⟨h.hosts.number, h.hosts.place⟩, h.recalls⟩

/-- A connection that does not use the log keeps nobody from its database. -/
theorem isShared_setConnection {n : FileNumber} (halone : w.isShared n = false)
    (hlogging : c.memory.isLogging = false) :
    (s.setConnection w (some c)).isShared n = false := by
  rw [World.isShared, Bool.or_eq_false_iff] at halone ⊢
  refine ⟨halone.1, List.any_eq_false.mpr ?_⟩
  intro c? hc
  rcases List.mem_or_eq_of_mem_set hc with hc | rfl
  · exact List.any_eq_false.mp halone.2 c? hc
  · simp [hlogging]

/-- The number under which a connection is kept does not stand in its way. -/
theorem isReady_setConnection (h : IsReady w c) : IsReady (s.setConnection w (some c)) c := by
  refine ⟨h.knows, ?_⟩
  have hway := h.way
  cases hl : c.memory.isLogging with
  | true =>
    rw [hl, if_pos rfl] at hway
    rw [if_pos rfl]
    exact hway
  | false =>
    rw [hl, if_neg (by simp)] at hway
    rw [if_neg (by simp)]
    exact ⟨isShared_setConnection hway.alone hl, hway.undo, hway.log⟩

/-- **Closing a store changes at most what lies beside its database.** -/
theorem close_bounded (hc : s.connection? w = some c) (hw : w.IsSound) (hh : w.Hosts c.handle) :
    World.ChangesOnly c.handle.IsBeside (fun _ => False) (s.setConnection w none)
      (s.close w) := by
  have hclose : s.close w = (s.setConnection w none).releaseLog c := by
    rw [close, hc]
  rw [hclose]
  exact World.releaseLog_bounded ⟨hw.tree, hw.cwd⟩ ⟨hh.number, hh.place⟩

theorem close_sound (hc : s.connection? w = some c) (hw : w.IsSound) (hh : w.Hosts c.handle) :
    (s.close w).IsSound :=
  (close_bounded hc hw hh).sound ⟨hw.tree, hw.cwd⟩

/-! ## 2. Recording -/

theorem result_ok {r : Except DatabaseFault α} {f : DatabaseFault → Failure} {a : α}
    (h : r.mapError f = .ok a) : r = .ok a := by
  cases r with
  | error e => exact absurd h (by simp [Except.mapError])
  | ok b => exact congrArg Except.ok (Except.ok.inj h)

/-- What a row that was recorded through a store leaves. -/
structure Recorded (w : World) (s : Store) (c : Connection) (row : Row) (w' : World)
    (c' : Connection) : Prop where
  isOpen : s.IsOpen w' c'
  handle : c'.handle = c.handle
  cwd : w'.cwd = w.cwd
  rows : ∃ rows, w.table? c.handle = some rows ∧ w'.table? c.handle = some (rows.put row)
  ready : IsReady w' c'
  disk : w.disk.ChangesOnly c.handle.IsBeside (· = c.handle.file) w'.disk
  locks : w'.locks = w.locks
  others : w'.connections.set s.connection none = w.connections.set s.connection none
  kept : ∀ {x e}, (c.handle.undo = some x → ∃ t, e = .link t) → w.disk.entryAt x = some e →
    w'.disk.entryAt x = some e

/-- **A record that was kept has put its row into the rows, and made ready for the next.** -/
theorem put_recorded (ho : s.IsOpen w c) {r : Record} (hok : (s.put w r).2 = .ok ()) :
    ∃ c', s.put w r = ((s.put w r).1, .ok ()) ∧
      s.Recorded w c (Row.ofRecord r) (s.put w r).1 c' := by
  have hput : s.put w r = _ := use_eq ho.connection _
  rw [hput] at hok ⊢
  have hresult : (w.putRow c (Row.ofRecord r)).result = .ok () := result_ok hok
  obtain ⟨hwrites, hrows⟩ := World.putRow_spec ho.starts (Row.ofRecord r)
  rw [hresult] at hrows
  obtain ⟨rows, hrows, hrows', -⟩ := hrows
  refine ⟨(w.putRow c (Row.ofRecord r)).connection, Prod.ext rfl hok, ?_⟩
  exact {
    isOpen := ⟨connection?_setConnection ho.connection hwrites.world.connections _,
      starts_setConnection (hwrites.starts ho.starts) _⟩
    handle := hwrites.handle
    cwd := hwrites.world.cwd
    rows := ⟨rows, hrows, hrows'⟩
    ready := isReady_setConnection (World.putRow_isReady ho.starts hresult)
    disk := hwrites.world.disk
    locks := hwrites.world.locks
    others := by
      rw [setConnection, hwrites.world.connections]
      exact List.set_set ..
    kept := World.putRow_kept ho.starts hresult }

/-- Every record can be kept, or none. -/
theorem put_result (w : World) (s : Store) (r r' : Record) : (s.put w r).2 = (s.put w r').2 := by
  unfold put use
  split
  · rfl
  · exact congrArg (Except.mapError s.failure) (World.putRow_result ..)

/-- **A store that is ready records**, and every entry of the disk stays where it is. -/
theorem put_of_isReady (ho : s.IsOpen w c) {rows : Table} (hrows : w.table? c.handle = some rows)
    (hready : IsReady w c) (r : Record) :
    (s.put w r).2 = .ok () ∧ ∀ x, (s.put w r).1.disk.entryAt x = w.disk.entryAt x := by
  obtain ⟨hok, hentry⟩ := World.putRow_of_isReady (.inr ho.starts) hrows hready (Row.ofRecord r)
  have hput : s.put w r = _ := use_eq ho.connection _
  rw [hput, hok]
  exact ⟨rfl, hentry⟩

/-! ## 3. The steps of opening -/

/-- The place a path stands for as a database, once the directories above it are there. -/
def place? (w : World) (path : Text) : Option Place :=
  match lexicalPath w path with
  | .error _ => none
  | .ok l =>
    match w.makeDirectories l.parent.doubled l.parent.inner with
    | (_, .error _) => none
    | (w, .ok ()) => if isPrivateDatabase path then none else w.databasePlace? path

theorem lexicalPath_almostClean {path : Text} {l : Path.Lexical}
    (h : lexicalPath w path = .ok l) : ∀ m ∈ l.parent.inner, Path.IsAlmostClean m := by
  have hlexical : ∃ p, l = Path.lexical p := by
    unfold lexicalPath at h
    split at h
    · exact ⟨_, (Except.ok.inj h).symm⟩
    · split at h
      · exact absurd h (by simp)
      · exact ⟨_, (Except.ok.inj h).symm⟩
  obtain ⟨p, rfl⟩ := hlexical
  exact fun m hm => Path.isAlmostClean_lexical p m (List.mem_of_mem_tail hm)

/-- The world once the directories above the database of a path are there. -/
def withDirectories (w : World) (path : Text) : World :=
  match lexicalPath w path with
  | .error _ => w
  | .ok l => (w.makeDirectories l.parent.doubled l.parent.inner).1

theorem withDirectories_grows (hw : w.IsSound) (path : Text) :
    w.Grows (withDirectories w path) := by
  unfold withDirectories
  split
  · exact .refl hw
  · next hl => exact World.makeDirectories_grows _ (lexicalPath_almostClean hl) hw

theorem withDirectories_contents (hw : w.IsSound) (path : Text) :
    (withDirectories w path).disk.contents = w.disk.contents := by
  unfold withDirectories
  split
  · rfl
  · next hl => exact World.makeDirectories_contents _ (lexicalPath_almostClean hl) hw

/-- The place of a path is where it leads once the directories are there. -/
theorem place?_eq {path : Text} {l : Path.Lexical} (hl : lexicalPath w path = .ok l)
    (hd : w.makeDirectories l.parent.doubled l.parent.inner = (withDirectories w path, .ok ())) :
    place? w path = if isPrivateDatabase path then none
      else (withDirectories w path).databasePlace? path := by
  rw [place?, hl]
  simp only [hd]

/-- The world in which a connection has been added, the last one. -/
def attach (v : World) (c : Connection) : World :=
  { v with connections := v.connections ++ [some c] }

theorem connection?_attach (hs : s.connection = w.connections.length) :
    s.connection? (attach w c) = some c := by
  simp [connection?, attach, hs]

/-- The store that opening makes has the connection that was added. -/
theorem connection?_new {path : Text} {timeout : Binary64} :
    connection? (attach w c) ⟨path, timeout, w.connections.length⟩ = some c :=
  connection?_attach rfl

theorem starts_attach (hw : w.IsSound) (hh : w.Hosts c.handle) (hfresh : c.memory = {}) :
    Starts (attach w c) c :=
  ⟨⟨hw.tree, hw.cwd⟩, ⟨hh.number, hh.place⟩, by simp [hfresh, Memory.Recalls]⟩

/-- Opening a store has come to the making of the table, through a new connection. -/
structure ComesToTable (w : World) (path : Text) (timeout : Binary64) (v : World)
    (c : Connection) : Prop where
  sound : (withDirectories w path).IsSound
  connect : (withDirectories w path).connect path = .ok (v, c)
  place : c.handle.place = place? w path
  opened : openAt w path timeout =
    let r := (Store.mk path timeout v.connections.length).use (attach v c) World.makeTable
    (r.1, r.2.map fun _ => Store.mk path timeout v.connections.length)

theorem comesToTable {path : Text} {l : Path.Lexical} {v : World} (hw : w.IsSound)
    (hl : lexicalPath w path = .ok l)
    (hd : w.makeDirectories l.parent.doubled l.parent.inner = (withDirectories w path, .ok ()))
    (hconnect : (withDirectories w path).connect path = .ok (v, c)) (timeout : Binary64) :
    ComesToTable w path timeout v c := by
  have hwd := (withDirectories_grows hw path).sound hw
  have hconnects := World.connect_ok hwd hconnect
  refine ⟨hwd, hconnect, ?_, by simp only [openAt, hl, hd, hconnect, attach]⟩
  rw [place?_eq hl hd]
  cases hp : c.handle.place with
  | none => rw [if_pos (hconnects.of_private hp).1]
  | some p =>
    obtain ⟨hprivate, hleads⟩ := hconnects.of_place hp
    rw [if_neg (by simp [hprivate]), hleads]

/-- **Opening a store** fails when it has made directories at most, or it comes to the making of
the table. -/
theorem openAt_cases (hw : w.IsSound) (path : Text) (timeout : Binary64) :
    (∃ e, openAt w path timeout = (withDirectories w path, .error e)) ∨
      ∃ v c, ComesToTable w path timeout v c := by
  cases hl : lexicalPath w path with
  | error e => exact .inl ⟨e, by simp only [openAt, withDirectories, hl]⟩
  | ok l =>
  cases hd : w.makeDirectories l.parent.doubled l.parent.inner with
  | mk wd r =>
  obtain rfl : withDirectories w path = wd := by simp only [withDirectories, hl, hd]
  cases r with
  | error e => exact .inl ⟨e, by simp only [openAt, hl, hd]⟩
  | ok u =>
  cases hconnect : (withDirectories w path).connect path with
  | error e => exact .inl ⟨e, by simp only [openAt, hl, hd, hconnect]⟩
  | ok r => exact .inr ⟨r.1, r.2, comesToTable hw hl hd hconnect timeout⟩

/-- A world `w'` with a connection to the database of a path, in which work on that database has
been done since it was opened in `v`. -/
structure Attached (w : World) (path : Text) (v w' : World) (c : Connection) : Prop where
  grows : w.Grows v
  place : c.handle.place = place? w path
  private? : c.handle.place = none → w.disk.contents.length ≤ c.handle.file
  /-- A file that was missing is empty when it has been opened. -/
  fresh : ∀ {p}, c.handle.place = some p → w.disk.entryAt p = none →
    v.content c.handle = .text []
  room : ∀ {p}, c.handle.place = some p → p.byteCount ≤ maxDatabasePath
  hosts : v.Hosts c.handle
  disk : v.disk.ChangesOnly c.handle.IsBeside (· = c.handle.file) w'.disk
  cwd : w'.cwd = w.cwd
  locks : w'.locks = w.locks
  connections : w'.connections = w.connections ++ [some c]

namespace ComesToTable

variable {path : Text} {timeout : Binary64} {v : World} (ho : ComesToTable w path timeout v c)
include ho

theorem connects : (withDirectories w path).Connects path v c :=
  World.connect_ok ho.sound ho.connect

theorem starts : Starts (attach v c) c :=
  starts_attach (ho.connects.grows.sound ho.sound) ho.connects.hosts ho.connects.memory

theorem world : openAt w path timeout =
    ((Store.mk path timeout v.connections.length).setConnection ((attach v c).makeTable c).world
        (some ((attach v c).makeTable c).connection),
      (((attach v c).makeTable c).result.mapError
        (Store.mk path timeout v.connections.length).failure).map
          fun _ => Store.mk path timeout v.connections.length) := by
  rw [ho.opened, use_eq connection?_new]

/-- The making of the table is done through the connection that is attached. -/
theorem attached (hw : w.IsSound) :
    Attached w path v (openAt w path timeout).1 ((attach v c).makeTable c).connection := by
  have hmake := withDirectories_grows hw path
  have hconnects := ho.connects
  have hgrows : w.Grows v := hmake.trans hconnects.grows
  obtain ⟨hwrites, -⟩ := World.makeTable_spec ho.starts
  rw [ho.world]
  refine ⟨hgrows, ?_, fun hnone => ?_, fun {p} hp hnone => ?_, fun {p} hp => ?_, ?_, ?_,
    hwrites.world.cwd.trans hgrows.cwd, hwrites.world.locks.trans hgrows.locks, ?_⟩
  · rw [hwrites.handle, ho.place]
  · rw [hwrites.handle] at hnone ⊢
    rw [(hconnects.of_private hnone).2.number]
    exact hmake.disk.length
  · rw [hwrites.handle] at hp ⊢
    rcases hconnects.file with rfl | hadds
    · -- A file that was there with the directories was there before them.
      have hlt := withDirectories_contents hw path ▸ hconnects.hosts.number
      rcases hmake.disk.file (hconnects.hosts.place hp) with hfile | hle
      · exact absurd (hnone.symm.trans hfile) (by simp)
      · exact absurd hlt (Nat.not_lt.mpr hle)
    · exact hadds.content
  · rw [hwrites.handle] at hp
    exact hconnects.room hp
  · exact hwrites.handle.symm ▸ hconnects.hosts
  · rw [hwrites.handle]
    exact hwrites.world.disk
  · rw [setConnection, hwrites.world.connections, ← hgrows.connections]
    simp [attach]

end ComesToTable

/-- **Opening a store** fails before it has a connection, or it attaches one.  If the table can be
read or made, it knows of the table and of the rows that were there. -/
theorem openAt_spec (hw : w.IsSound) (path : Text) (timeout : Binary64) :
    (∃ e, (openAt w path timeout).2 = .error e ∧ w.Grows (openAt w path timeout).1) ∨
    ∃ v c, Attached w path v (openAt w path timeout).1 c ∧
      match (openAt w path timeout).2 with
      | .ok s => s.IsOpen (openAt w path timeout).1 c ∧ Knows c ∧
          s.connection = w.connections.length ∧
          (openAt w path timeout).1.table? c.handle = some ((v.table? c.handle).getD [])
      | .error _ => (openAt w path timeout).1.content c.handle = v.content c.handle ∧
          ∀ rows, v.table? c.handle = some rows → c.memory.isLogging = false := by
  have hmake := withDirectories_grows hw path
  rcases openAt_cases hw path timeout with ⟨e, heq⟩ | ⟨v, c, ho⟩
  · rw [heq]
    exact .inl ⟨e, rfl, hmake⟩
  refine .inr ⟨v, ((attach v c).makeTable c).connection, ho.attached hw, ?_⟩
  have hnumber : v.connections.length = w.connections.length :=
    congrArg List.length (hmake.trans ho.connects.grows).connections
  obtain ⟨hwrites, htable⟩ := World.makeTable_spec ho.starts
  rw [ho.world, hwrites.handle]
  split at htable
  · next hok =>
    simp only [hok]
    exact ⟨⟨connection?_setConnection connection?_new hwrites.world.connections _,
      starts_setConnection (hwrites.starts ho.starts) _⟩, htable.2, hnumber, htable.1⟩
  · next f herror =>
    simp only [herror]
    refine ⟨htable, fun rows hrows => ?_⟩
    have hfresh : c.memory.isLogging = false := by rw [ho.connects.memory]
    exact (World.makeTable_error ho.starts hrows herror).trans hfresh

/-! ## 4. Opening again -/

/-- A path names the database at a place, and no directory has to be made beside that. -/
structure Names (w : World) (path : Text) (p : Place) : Prop where
  place : place? w path = some p
  no_nul : Text.nul ∉ path
  apart : ∀ {x}, LiesBeside x p →
    (withDirectories w path).disk.entryAt x = w.disk.entryAt x

/-- What is done for a path that stands for a database, up to the connection. -/
theorem steps_of_place? {path : Text} {p : Place} (hplace : place? w path = some p) :
    ∃ l, lexicalPath w path = .ok l ∧ w.makeDirectories l.parent.doubled l.parent.inner =
        (withDirectories w path, .ok ()) ∧ isPrivateDatabase path = false ∧
      (withDirectories w path).databasePlace? path = some p := by
  unfold place? at hplace
  cases hl : lexicalPath w path with
  | error e =>
    rw [hl] at hplace
    exact absurd hplace (by simp)
  | ok l =>
  rw [hl] at hplace
  simp only [withDirectories, hl] at hplace ⊢
  cases hd : w.makeDirectories l.parent.doubled l.parent.inner with
  | mk v r =>
  rw [hd] at hplace
  cases r with
  | error e => exact absurd hplace (by simp)
  | ok u =>
    simp only at hplace ⊢
    split at hplace
    · exact absurd hplace (by simp)
    · next hprivate => exact ⟨l, rfl, hd, by simpa using hprivate, hplace⟩

/-- A file that was opened as a database before is opened again. -/
theorem connect_of_place {path : Text} {p : Place} (hprivate : isPrivateDatabase path = false)
    (hnul : Text.nul ∉ path) (hplace : w.databasePlace? path = some p) (hw : w.IsSound)
    {h : Handle} (hh : w.Hosts h) (hp : h.place = some p)
    (hroom : p.byteCount ≤ maxDatabasePath) : w.connect path = .ok (w, { handle := h }) := by
  have hentry := hh.place hp
  rw [World.connect, hprivate, if_neg (by simp), if_neg hnul, hplace]
  simp only
  unfold World.connectAt
  rw [if_neg (Nat.not_lt.mpr hroom)]
  cases p with
  | nil => exact absurd hentry (by simp)
  | cons name outer =>
    have hcan : ¬(w.disk.entryAt outer ≠ some .directory ∨ Disk.maxName < Text.byteCount name) :=
      not_or.mpr ⟨not_not.mpr (hw.tree.parent hentry), Nat.not_lt.mpr (hw.tree.name hentry).short⟩
    simp only [if_neg hcan, hentry]
    rw [← hp]

/-- What is found when a calm database is opened again: its rows, and a connection that can read
them.  Directories may have come, and at most an undo file has gone. -/
structure Reopened (w : World) (h : Handle) (rows : Table) (w' : World) (s : Store)
    (c : Connection) : Prop where
  isOpen : s.IsOpen w' c
  handle : c.handle = h
  knows : Knows c
  resting : World.IsResting w' c
  rows : w'.table? h = some rows
  cwd : w'.cwd = w.cwd
  link : ∀ {x t}, w'.disk.entryAt x = some (.link t) → w.disk.entryAt x = some (.link t)
  directory : ∀ {x}, w.disk.entryAt x = some .directory → w'.disk.entryAt x = some .directory
  kept : ∀ {x e}, (h.undo = some x → ∃ t, e = .link t) → w.disk.entryAt x = some e →
    w'.disk.entryAt x = some e

/-- A calm database with a new connection to it. -/
theorem ComesToTable.reopened {path : Text} {timeout : Binary64} {h : Handle} (hw : w.IsSound)
    (ho : ComesToTable w path timeout (withDirectories w path) { handle := h }) {rows : Table}
    (hrows : (withDirectories w path).table? h = some rows)
    (hcalm : (withDirectories w path).IsCalm h) :
    ∃ w' s c, openAt w path timeout = (w', .ok s) ∧ Reopened w h rows w' s c := by
  have hgrows := withDirectories_grows hw path
  have hshared : (attach (withDirectories w path) { handle := h }).isShared h.file = false := by
    have halone := hcalm.alone
    rw [World.isShared, Bool.or_eq_false_iff] at halone ⊢
    rw [attach, List.any_append, halone.2]
    exact ⟨halone.1, by simp⟩
  -- The world in which the table is asked for has the new connection already.
  obtain ⟨hok, hlooks, hresting⟩ :=
    World.makeTable_of_isResting ho.starts hrows fun _ => ⟨hshared, hcalm.files⟩
  obtain ⟨hwrites, hspec⟩ := World.makeTable_spec ho.starts
  rw [hok] at hspec
  have hblank : ((withDirectories w path).content h).isBlank = false := by
    obtain ⟨i, hcontent, -⟩ := World.content_of_table hrows
    rw [hcontent]
    rfl
  refine ⟨_, ⟨path, timeout, (withDirectories w path).connections.length⟩, _, ?_,
    ⟨connection?_setConnection connection?_new hwrites.world.connections _,
      starts_setConnection (hwrites.starts ho.starts) _⟩, hwrites.handle, hspec.2, ?_, ?_, ?_,
    fun hx => hgrows.disk.link (hlooks.world.bound.disk.link hx),
    fun hx => hlooks.world.bound.disk.directory (hgrows.disk.directory hx),
    fun hundo hx => hlooks.world.kept hblank hundo (hgrows.kept hx)⟩
  · rw [ho.world, hok]
    rfl
  · intro hlogging
    have hcalm' := hresting hlogging
    exact ⟨isShared_setConnection hcalm'.alone hlogging, hcalm'.files⟩
  · have hrows' : (attach (withDirectories w path) { handle := h }).table? h = some rows := hrows
    exact hspec.1.trans (by rw [hrows']; rfl)
  · exact hwrites.world.cwd.trans hgrows.cwd

/-- **A calm database can be opened again.** -/
theorem openAt_of_names {path : Text} {p : Place} (hn : Names w path p) (hw : w.IsSound)
    {h : Handle} (hh : w.Hosts h) (hp : h.place = some p) (hroom : p.byteCount ≤ maxDatabasePath)
    {rows : Table} (hrows : w.table? h = some rows) (hcalm : w.IsCalm h) (timeout : Binary64) :
    ∃ w' s c, openAt w path timeout = (w', .ok s) ∧ Reopened w h rows w' s c := by
  obtain ⟨l, hl, hd, hprivate, hplace⟩ := steps_of_place? hn.place
  have hgrows := withDirectories_grows hw path
  have hentry := hh.place hp
  have hh' : (withDirectories w path).Hosts h :=
    hh.elsewhere hgrows.disk fun hq => by simp [hh.place hq]
  have hcontent : (withDirectories w path).content h = w.content h := hgrows.content hw hentry
  have hcalm' : (withDirectories w path).IsCalm h := by
    refine ⟨(World.isShared_eq hgrows.locks hgrows.connections _).trans hcalm.alone,
      fun hx he => hcalm.files hx ?_⟩
    exact (hn.apart ((Handle.isBeside_iff hp).mp (hx.imp id .inl))).symm.trans he
  have hconnect := connect_of_place hprivate hn.no_nul hplace (hgrows.sound hw) hh' hp hroom
  exact (comesToTable hw hl hd hconnect timeout).reopened hw
    ((World.table?_of_content hcontent).trans hrows) hcalm'

end Store

end CompileJournal
