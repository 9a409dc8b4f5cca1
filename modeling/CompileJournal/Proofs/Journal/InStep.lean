import CompileJournal.Proofs.Journal.Opening
import CompileJournal.Proofs.Journal.Turns

/-!
# Stores that are in step

Several stores are open on one database.  They are *in step* if whoever relies on what it remembers
of the file can do so: somebody uses the log, so that nobody keeps a counted change, or everybody's
memory is in agreement with the file.  They stay in step whatever lies beside the database, and
whoever of them puts a row, is opened on the database, or waits for a transaction from outside.
What they would not survive is that the last one who uses the log is closed: the log goes, and
nothing tells the others that the file has changed.

* `World.IsInStep`, `World.GoesOn`: the invariant, and what keeps it;
* `put_goesOn`: a record that is put comes to the rows that are there;
* `lock_goesOn`, `unlock_goesOn`: transactions from outside;
* `isInStep_of_unused`, `openAt_inStep`, `IsOrderly.isInStep`: how stores come to be in step.
-/

namespace CompileJournal

open World (TakesTurn Trusts)

variable {w w' v : World} {h : Handle} {s s' : Store} {c : Connection} {α : Type}

/-! ## 1. The invariant -/

/-- A world in which everybody who has the database of a handle open can go by what it
remembers. -/
structure World.IsInStep (w : World) (h : Handle) : Prop where
  sound : w.IsSound
  hosts : w.Hosts h
  memory : w.HasLogger h.file ∨
    ∀ c, some c ∈ w.connections → c.handle = h → c.memory.Agrees (w.content h)

/-- A store that is open on the database of a handle. -/
def Store.IsOpenOn (w : World) (s : Store) (h : Handle) : Prop :=
  (s.connection? w).map Connection.handle = some h

instance (w : World) (s : Store) (h : Handle) : Decidable (s.IsOpenOn w h) :=
  inferInstanceAs (Decidable (_ = _))

/-- What everybody who has the database of a handle open can live with: they are in step afterwards,
all stores are where they were, and nothing has changed on the disk but the database and what lies
beside it. -/
structure World.GoesOn (w : World) (h : Handle) (w' : World) : Prop where
  inStep : w'.IsInStep h
  isOpen : ∀ s : Store, s.IsOpenOn w' h ↔ s.IsOpenOn w h
  disk : w.disk.ChangesOnly h.IsBeside (· = h.file) w'.disk
  cwd : w'.cwd = w.cwd

theorem Store.IsOpenOn.exists_connection (hs : s.IsOpenOn w h) :
    ∃ c, s.connection? w = some c ∧ c.handle = h := Option.map_eq_some_iff.mp hs

theorem Store.isOpenOn_congr (hconnections : w'.connections = w.connections) :
    s.IsOpenOn w' h ↔ s.IsOpenOn w h := by
  rw [IsOpenOn, IsOpenOn, connection?, connection?, hconnections]

namespace World

theorem IsInStep.trusts (hw : w.IsInStep h) (hc : some c ∈ w.connections) (hh : c.handle = h) :
    w.Trusts c := by
  subst hh
  exact hw.memory.imp_right fun hall => .inr (hall c hc rfl)

theorem IsInStep.goesOn (hw : w.IsInStep h) : w.GoesOn h w :=
  ⟨hw, fun _ => .rfl, .refl hw.sound.tree, rfl⟩

theorem GoesOn.trans (hg : w.GoesOn h v) (hg' : v.GoesOn h w') : w.GoesOn h w' where
  inStep := hg'.inStep
  isOpen s := (hg'.isOpen s).trans (hg.isOpen s)
  disk := hg.disk.trans hg'.disk
  cwd := hg'.cwd.trans hg.cwd

/-- A transaction from outside that begins or ends is none of the stores' business. -/
theorem Minds.goesOn (hm : Minds w h w') (hw : w.IsInStep h) : w.GoesOn h w' where
  inStep.sound := hm.sound hw.sound
  inStep.hosts := hm.hosts hw.hosts
  inStep.memory := by
    rw [HasLogger, hm.connections, hm.content_eq hw.sound hw.hosts]
    exact hw.memory
  isOpen _ := Store.isOpenOn_congr hm.connections
  disk := hm.disk.mono (fun _ h => h) fun _ h => h.elim
  cwd := hm.cwd

theorem lock_goesOn (hw : w.IsInStep h) {path : Text} (hpath : w.IsPathTo path h)
    (mode : LockMode) : w.GoesOn h (w.lock path mode).1 ∧
      (w.lock path mode).1.table? h = w.table? h :=
  have hm := lock_turns hw.sound hw.hosts hpath mode
  ⟨hm.goesOn hw, table?_of_content (hm.content_eq hw.sound hw.hosts)⟩

theorem unlock_goesOn (hw : w.IsInStep h) {path : Text}
    (hlocks : ∀ l ∈ w.locks, l.holder = some path → l.handle = h) :
    w.GoesOn h (w.unlock path) ∧ (w.unlock path).table? h = w.table? h :=
  have hm := unlock_turns hw.sound hw.hosts hlocks
  ⟨hm.goesOn hw, table?_of_content (hm.content_eq hw.sound hw.hosts)⟩

/-- New directories and new files leave the stores in step. -/
theorem IsInStep.grow (hw : w.IsInStep h) {p : Place} (hp : h.place = some p)
    (hgrows : w.Grows v) : v.IsInStep h where
  sound := hgrows.sound hw.sound
  hosts := hw.hosts.elsewhere hgrows.disk fun hq => by simp [hw.hosts.place hq]
  memory := by
    have hcontent : v.content h = w.content h := hgrows.content hw.sound (hw.hosts.place hp)
    rw [HasLogger, hgrows.connections, hcontent]
    exact hw.memory

end World

namespace Store

/-! ## 2. Using a store -/

/-- A connection that is exchanged for one on the same database leaves all stores where they
were. -/
theorem isOpenOn_setConnection (hc : s.connection? w = some c) {d : Connection}
    (hd : d.handle = c.handle) (hconnections : w'.connections = w.connections) :
    s'.IsOpenOn (s.setConnection w' (some d)) h ↔ s'.IsOpenOn w h := by
  by_cases hsame : s'.connection = s.connection
  · have hnumber : ∀ u : World, s'.connection? u = s.connection? u := fun u => by
      rw [connection?, connection?, hsame]
    rw [IsOpenOn, IsOpenOn, hnumber, hnumber, connection?_setConnection hc hconnections, hc,
      Option.map_some, Option.map_some, hd]
  · rw [IsOpenOn, IsOpenOn, connection?, connection?, setConnection, hconnections,
      List.getElem?_set_ne (Ne.symm hsame)]

/-- Whoever uses the log goes on using it, when a connection is exchanged for one that does so if
the first one did. -/
theorem hasLogger_setConnection {n : FileNumber} (hc : s.connection? w = some c) {d : Connection}
    (hd : d.handle = c.handle) (hlogging : c.memory.isLogging = true → d.memory.isLogging = true)
    (hconnections : w'.connections = w.connections) (hl : w.HasLogger n) :
    (s.setConnection w' (some d)).HasLogger n := by
  obtain ⟨e, he, hfile, helogging⟩ := hl
  obtain ⟨i, hi⟩ := List.mem_iff_getElem?.mp he
  by_cases hsame : s.connection = i
  · subst hsame
    have hec : e = c := by
      rw [connection?, hi] at hc
      exact Option.some.inj hc
    subst hec
    refine ⟨d, ?_, hd ▸ hfile, hlogging helogging⟩
    exact mem_of_connection? (connection?_setConnection hc hconnections (some d))
  · refine ⟨e, List.mem_of_getElem? (i := i) ?_, hfile, helogging⟩
    rw [setConnection, hconnections, List.getElem?_set_ne hsame, hi]

/-- **Whoever takes a turn leaves everybody in step.** -/
theorem use_goesOn (hw : w.IsInStep h) (hc : s.connection? w = some c) (hh : c.handle = h)
    {f : World → Connection → Turn Unit} {becomes : Option Table → Option Table → Prop}
    (ht : TakesTurn w c becomes (f w c))
    (hbound : w.ChangesOnly c.handle.IsBeside (· = c.handle.file) (f w c).world) :
    w.GoesOn h (s.use w f).1 ∧
      match (s.use w f).2 with
      | .ok _ => becomes (w.table? h) ((s.use w f).1.table? h)
      | .error _ => (s.use w f).1.table? h = w.table? h := by
  subst hh
  have htrusts := hw.trusts (mem_of_connection? hc) rfl
  have hconnections := ht.world.connections
  have hself : s.connection? (s.setConnection (f w c).world (some (f w c).connection)) =
      some (f w c).connection := connection?_setConnection hc hconnections _
  rw [use_eq hc]
  refine ⟨⟨⟨?_, ?_, ?_⟩, fun t => isOpenOn_setConnection hc ht.handle hconnections,
    hbound.disk, hbound.cwd⟩, ?_⟩
  · exact ⟨(hbound.sound hw.sound).tree, (hbound.sound hw.sound).cwd⟩
  · exact ⟨(hw.hosts.after hbound).number, (hw.hosts.after hbound).place⟩
  · have hlogs : (f w c).connection.memory.isLogging = true →
        (s.setConnection (f w c).world (some (f w c).connection)).HasLogger c.handle.file :=
      fun hl => ⟨_, mem_of_connection? hself, congrArg Handle.file ht.handle, hl⟩
    have hall : (f w c).connection.memory.Agrees ((f w c).world.content c.handle) →
        (∀ d, some d ∈ w.connections → d.handle = c.handle →
          d.memory.Agrees ((f w c).world.content c.handle)) →
        ∀ d, some d ∈ (s.setConnection (f w c).world (some (f w c).connection)).connections →
          d.handle = c.handle → d.memory.Agrees ((f w c).world.content c.handle) := by
      intro hself hothers d hd hdh
      rcases List.mem_or_eq_of_mem_set hd with hd | hd
      · exact hothers d (hconnections ▸ hd) hdh
      · rw [Option.some.inj hd]
        exact hself
    rcases ht.memory htrusts with hl | ⟨hsame, hagrees⟩ | ⟨hlone, hagrees, hothers⟩
    · exact .inl (hlogs hl)
    · refine hw.memory.imp (hasLogger_setConnection hc ht.handle ht.logging hconnections) ?_
      intro hmemory
      refine hall ?_ ?_
      · rw [hsame]
        exact hagrees (hmemory c (mem_of_connection? hc) rfl)
      · rw [hsame]
        exact hmemory
    · have hmemory := hw.memory.resolve_left hlone
      exact .inr (hall hagrees fun d hd hdh => hothers _ (hmemory d hd hdh))
  · cases hr : (f w c).result with
    | ok u => exact ht.kept htrusts (by rw [hr])
    | error e => exact World.table?_of_content (ht.refused e hr)

/-- **A record that is put comes to the rows that are there**, and one that is not put leaves
them. -/
theorem put_goesOn (hw : w.IsInStep h) (hs : s.IsOpenOn w h) (r : Record) :
    w.GoesOn h (s.put w r).1 ∧
      match (s.put w r).2 with
      | .ok _ => ∃ rows, w.table? h = some rows ∧
          (s.put w r).1.table? h = some (rows.put (Row.ofRecord r))
      | .error _ => (s.put w r).1.table? h = w.table? h := by
  obtain ⟨c, hc, rfl⟩ := hs.exists_connection
  exact use_goesOn (f := fun w c => w.putRow c (Row.ofRecord r)) hw hc rfl
    (World.putRow_turns (hw.hosts.carries hw.sound) _)
    (World.putRow_bounded hw.sound hw.hosts _)

/-! ## 3. Coming to be in step -/

/-- A database that nobody has open. -/
theorem isInStep_of_unused (hw : w.IsSound) (hh : w.Hosts h)
    (hunused : ∀ c, some c ∈ w.connections → c.handle ≠ h) : w.IsInStep h where
  sound := hw
  hosts := hh
  memory := .inr fun c hc heq => absurd heq (hunused c hc)

/-- A connection that has just been made is in step with the others. -/
theorem attach_inStep (hw : w.IsInStep h) (hc : c.memory = {}) :
    (attach w c).IsInStep h where
  sound := ⟨hw.sound.tree, hw.sound.cwd⟩
  hosts := ⟨hw.hosts.number, hw.hosts.place⟩
  memory := by
    refine hw.memory.imp ?_ ?_
    · rintro ⟨d, hd, hrest⟩
      exact ⟨d, List.mem_append_left _ hd, hrest⟩
    · intro hall d hd hdh
      rcases List.mem_append.mp hd with hd | hd
      · exact hall d hd hdh
      · rw [Option.some.inj (List.mem_singleton.mp hd), hc]
        exact Memory.agrees_empty _

/-- A store stays where it is when another connection comes. -/
theorem isOpenOn_attach (hs : s.IsOpenOn w h) (c : Connection) : s.IsOpenOn (attach w c) h := by
  obtain ⟨d, hd, -⟩ := hs.exists_connection
  have hsame : s.connection? (attach w c) = s.connection? w := by
    rw [attach, connection?, connection?, List.getElem?_append_left (lt_length hd)]
  rwa [IsOpenOn, hsame]

/-- **A store that is opened on the database is in step with the others**, and finds their rows. -/
theorem openAt_inStep (hw : w.IsInStep h) (hsome : h.place.isSome) {path : Text}
    (hplace : place? w path = h.place) (timeout : Binary64) :
    (openAt w path timeout).1.IsInStep h ∧
      (∀ t : Store, t.IsOpenOn w h → t.IsOpenOn (openAt w path timeout).1 h) ∧
      match (openAt w path timeout).2 with
      | .ok s => s.IsOpenOn (openAt w path timeout).1 h ∧
          (openAt w path timeout).1.table? h = some ((w.table? h).getD [])
      | .error _ => (openAt w path timeout).1.table? h = w.table? h := by
  obtain ⟨p, hp⟩ := Option.isSome_iff_exists.mp hsome
  have hgrows := withDirectories_grows hw.sound path
  have hrows : (withDirectories w path).table? h = w.table? h :=
    World.table?_of_content (hgrows.content hw.sound (hw.hosts.place hp))
  have hv := hw.grow hp hgrows
  have hopen : ∀ {t : Store}, t.IsOpenOn w h → t.IsOpenOn (withDirectories w path) h :=
    (isOpenOn_congr hgrows.connections).mpr
  rcases openAt_cases hw.sound path timeout with ⟨e, heq⟩ | ⟨v, c, ho⟩
  · rw [heq]
    exact ⟨hv, fun _ => hopen, hrows⟩
  obtain ⟨hprivate, hleads⟩ := ho.connects.of_place (ho.place.trans (hplace.trans hp))
  obtain ⟨rfl, hh⟩ := World.connect_of_isPathTo hv.sound hv.hosts
    ⟨hprivate, hsome, hleads.trans hp.symm⟩ ho.connect
  have hc := ho.connects.memory
  have hagrees : c.memory.Agrees ((attach (withDirectories w path) c).content c.handle) :=
    hc ▸ Memory.agrees_empty _
  have hattached := attach_inStep hv hc
  have hhosts : (attach (withDirectories w path) c).Hosts c.handle := hh.symm ▸ hattached.hosts
  obtain ⟨hgoesOn, hresult⟩ := use_goesOn hattached connection?_new hh
    (World.makeTable_turns (hhosts.carries hattached.sound) hagrees)
    (World.makeTable_bounded hattached.sound hhosts)
  rw [ho.opened]
  simp only
  generalize Store.use (attach (withDirectories w path) c)
    ⟨path, timeout, (withDirectories w path).connections.length⟩ World.makeTable = r
    at hgoesOn hresult ⊢
  obtain ⟨w', u⟩ := r
  refine ⟨hgoesOn.inStep, fun t ht => (hgoesOn.isOpen t).mpr (isOpenOn_attach (hopen ht) _), ?_⟩
  cases u with
  | error e => exact hresult.trans hrows
  | ok u =>
    refine ⟨(hgoesOn.isOpen _).mpr (by rw [IsOpenOn, connection?_new, Option.map_some, hh]), ?_⟩
    rw [← hrows]
    exact hresult

end Store

/-- In an orderly world everybody is in step. -/
theorem World.IsOrderly.isInStep {D : Place → Prop} (ho : w.IsOrderly D) (hown : w.Owns D h) :
    w.IsInStep h where
  sound := ho.sound
  hosts := hown.hosts
  memory := .inr fun _ hc heq => heq ▸ (ho.connection hc).2

end CompileJournal
