import CompileJournal.Proofs.Commands.Opened
import CompileJournal.Proofs.Commands.Refusals
import CompileJournal.Proofs.Journal.Leftovers
import CompileJournal.Proofs.World.Directories

/-!
# What opening a store leaves, and opening it again

Opening a store that is not private makes directories, then perhaps the database, and then the table
through a new connection.  So there is one world between, the one with the directories, and what
comes after it is told place by place: the database is the only new thing but for the index of a log,
and only the undo file and the log may have gone.

As long as none of these was a link, directories and links are where they were, so that the path
leads to the same database or, now that there is a file in its way, to none.  That is why opening
the path again adds nothing.

* `databasePlace?_later`: where the path of a database leads later;
* `OpensThrough`, `openAt_through`: the steps of opening a store;
* `LeavesElse`, `OpensThrough.leavesElse`: what lies where afterwards;
* `OpensThrough.leaves_all`, `OpensThrough.succeeds`: the same where nothing lay beside the database;
* `OpensThrough.again`: opening again.
-/

namespace CompileJournal

/-! ## 1. Where the path of a database leads later -/

namespace Disk

variable {d d' : Disk}

/-- The same directories and links lie at the same places of two disks. -/
structure SameShape (d d' : Disk) : Prop where
  directory : ∀ x, d'.entryAt x = some .directory ↔ d.entryAt x = some .directory
  link : d.SameLinks d'

/-- **A database path leads to the same place** on a disk with the same directories and links, or
to none, if a file has come in its way. -/
theorem databaseSteps_later (hd : d.SameShape d') {follow follow' : Place → List Name → Option Place}
    {p : Place} (hfollow : ∀ {here names}, follow here names = some p →
      follow' here names = some p ∨ follow' here names = none) {here : Place} {names : List Name}
    (h : d.databaseSteps follow here names = some p) :
    d'.databaseSteps follow' here names = some p ∨ d'.databaseSteps follow' here names = none := by
  induction names generalizing here with
  | nil => exact .inl h
  | cons name rest ih =>
    unfold databaseSteps at h ⊢
    by_cases hstay : name = [] ∨ name = ['.']
    · rw [if_pos hstay] at h ⊢
      exact ih h
    rw [if_neg hstay] at h ⊢
    by_cases habove : name = ['.', '.']
    · rw [if_pos habove] at h ⊢
      exact ih h
    rw [if_neg habove] at h ⊢
    by_cases hlong : databasePathRoom ≤ Place.byteCount (name :: here)
    · rw [if_pos hlong] at h
      exact absurd h (by simp)
    rw [if_neg hlong] at h ⊢
    cases hhere : d.entryAt here with
    | none =>
      rw [hhere] at h
      -- What has come there since is neither a directory nor a link.
      cases hhere' : d'.entryAt here with
      | none => exact ih h
      | some e =>
        cases e with
        | file _ | pipe | link _ => exact .inr rfl
        | directory =>
          rw [(hd.directory here).mp hhere'] at hhere
          exact absurd hhere (by simp)
    | some e =>
      rw [hhere] at h
      cases e with
      | file _ | pipe | link _ => exact absurd h (by simp)
      | directory =>
        rw [(hd.directory here).mpr hhere]
        simp only at h ⊢
        by_cases hname : maxName < Text.byteCount name
        · rw [if_pos hname] at h
          exact absurd h (by simp)
        rw [if_neg hname] at h ⊢
        split at h
        · next target hlink =>
          rw [(hd.link _ _).mpr hlink]
          simp only
          split at h
          · exact absurd h (by simp)
          · next htarget =>
            rw [if_neg htarget]
            exact hfollow h
        · next hplain =>
          split
          · next target hlink => exact absurd ((hd.link _ _).mp hlink) (hplain target)
          · exact ih h

theorem databasePlace_later (hd : d.SameShape d') (links : Nat) {here p : Place}
    {names : List Name} (h : d.databasePlace links here names = some p) :
    d'.databasePlace links here names = some p ∨ d'.databasePlace links here names = none := by
  induction links generalizing here names with
  | zero => exact databaseSteps_later hd (fun h => absurd h (by simp)) h
  | succ links ih => exact databaseSteps_later hd ih h

end Disk

namespace World

variable {w w' : World} {path : Text} {p : Place}

theorem databasePlace?_later (hd : w.disk.SameShape w'.disk) (hcwd : w'.cwd = w.cwd)
    (h : w.databasePlace? path = some p) :
    w'.databasePlace? path = some p ∨ w'.databasePlace? path = none := by
  unfold databasePlace? at h ⊢
  rw [hcwd]
  split at h
  · next habs =>
    rw [if_pos habs]
    exact Disk.databasePlace_later hd _ h
  next habs =>
  rw [if_neg habs]
  split at h
  · next hlost =>
    rw [if_pos hlost]
    exact Disk.databasePlace_later hd _ h
  · exact absurd h (by simp)

/-- There is one database at a place. -/
theorem Hosts.eq_of_place {g h : Handle} (hg : w.Hosts g) (hh : w.Hosts h)
    (hgp : g.place = some p) (hhp : h.place = some p) : g = h := by
  have hfile := (hg.place hgp).symm.trans (hh.place hhp)
  rw [Option.some.injEq, Entry.file.injEq] at hfile
  cases g
  cases h
  simp only [Handle.mk.injEq]
  exact ⟨hfile, hgp.trans hhp.symm⟩

/-- A directory is found where it was found. -/
theorem isDirectory_later (hd : w.disk.SameShape w'.disk) (hcwd : w'.cwd = w.cwd)
    {l : Path.Lexical} (h : w.isDirectory l.text = true) : w'.isDirectory l.text = true := by
  obtain ⟨x, hx, hdir⟩ := isDirectory_lexical_iff.mp h
  refine isDirectory_lexical_iff.mpr ⟨x, find_kept hcwd hx ?_, (hd.directory x).mpr hdir⟩
  rintro y e he (rfl | ⟨target, rfl⟩ | rfl)
  · exact (hd.directory y).mpr he
  · exact (hd.link y target).mpr he
  · rw [hdir] at he
    rw [← he]
    exact (hd.directory y).mpr hdir

end World

namespace Store

open World (Starts AddsNothing)

variable {w w' v : World} {c : Connection} {path : Text} {timeout : Binary64} {p x : Place}

/-! ## 2. The steps of opening -/

/-- Opening a store has come to the making of the table, through a connection to the database at a
place. -/
structure OpensThrough (w : World) (path : Text) (timeout : Binary64) (p : Place) (v : World)
    (c : Connection) : Prop where
  place : place? w path = some p
  sound : (withDirectories w path).IsSound
  connects : (withDirectories w path).Connects path v c
  handle : c.handle.place = some p
  world : openAt w path timeout =
    ((Store.mk path timeout v.connections.length).setConnection ((attach v c).makeTable c).world
        (some ((attach v c).makeTable c).connection),
      (((attach v c).makeTable c).result.mapError
        (Store.mk path timeout v.connections.length).failure).map
          fun _ => Store.mk path timeout v.connections.length)

/-- **Opening a store that is not private** fails before the database is touched, or it comes to
the making of the table. -/
theorem openAt_through (hw : w.IsSound) (hprivate : isPrivateDatabase path = false)
    (timeout : Binary64) :
    (∃ e, openAt w path timeout = (withDirectories w path, .error e)) ∨
      ∃ p v c, OpensThrough w path timeout p v c := by
  rcases openAt_cases hw path timeout with hfails | ⟨v, c, ho⟩
  · exact .inl hfails
  obtain ⟨p, hp, -⟩ := ho.connects.exists_place hprivate
  exact .inr ⟨p, v, c, ho.place.symm.trans hp, ho.sound, ho.connects, hp, ho.world⟩

namespace OpensThrough

variable (ho : OpensThrough w path timeout p v c)
include ho

theorem disk : (openAt w path timeout).1.disk = ((attach v c).makeTable c).world.disk := by
  rw [ho.world]
  rfl

theorem starts : Starts (attach v c) c :=
  starts_attach (ho.connects.grows.sound ho.sound) ho.connects.hosts ho.connects.memory

theorem result : (∃ s, (openAt w path timeout).2 = .ok s) ↔
    ((attach v c).makeTable c).result = .ok () := by
  rw [ho.world]
  cases ((attach v c).makeTable c).result <;> simp [Except.mapError, Except.map]

theorem leavesBeside :
    (attach v c).LeavesBeside c.handle ((attach v c).makeTable c).world :=
  World.makeTable_leavesBeside ho.starts.sound ho.starts.hosts

theorem beside_eq {ending : Text} : Handle.beside ⟨0, some p⟩ ending = c.handle.beside ending :=
  (Handle.beside_eq ho.handle ending).symm

theorem isBeside_iff : c.handle.IsBeside x ↔ LiesBeside x p := Handle.isBeside_iff ho.handle

/-- The database does not lie beside itself. -/
theorem ne_of_isBeside (hx : LiesBeside x p) : x ≠ p := by
  rintro rfl
  exact Handle.not_isBeside ho.handle (ho.isBeside_iff.mpr hx)

/-- At all places but its own a new database makes no difference. -/
theorem entryAt_of_ne (hx : x ≠ p) :
    (attach v c).disk.entryAt x = (withDirectories w path).disk.entryAt x := by
  have hne : c.handle.place ≠ some x := fun hp => hx (Option.some.inj (hp.symm.trans ho.handle))
  rcases ho.connects.file with heq | ha
  · rw [attach, heq]
  · exact ha.elsewhere hne

/-- The file at the place is the database, so any other file that was there is not. -/
theorem file_ne {n : FileNumber} (hn : n < (withDirectories w path).disk.contents.length)
    (hp : (withDirectories w path).disk.entryAt p ≠ some (.file n)) : n ≠ c.handle.file := by
  rintro rfl
  rcases ho.connects.file with heq | ha
  · rw [← heq] at hp
    exact hp (ho.connects.hosts.place ho.handle)
  · rw [ha.number] at hn
    exact Nat.lt_irrefl _ hn

theorem content_before {n : FileNumber} (hn : n < (withDirectories w path).disk.contents.length) :
    (attach v c).disk.contentOf n = (withDirectories w path).disk.contentOf n :=
  ho.connects.grows.disk.content hn id fun x hnone => by simp [hnone]

end OpensThrough

/-! ## 3. What lies where afterwards -/

/-- What opening a store at a place leaves of a world in which the directories above it are there. -/
structure LeavesElse (w : World) (p : Place) (w' : World) : Prop where
  /-- What lies neither at the place of the undo file nor of the log is still there. -/
  kept : ∀ {x e}, w.disk.entryAt x = some e → ¬LiesAside x p → w'.disk.entryAt x = some e
  directory : ∀ {x}, w.disk.entryAt x = some .directory → w'.disk.entryAt x = some .directory
  /-- What lies at those two places is still there, or it is gone. -/
  aside : ∀ {x}, LiesAside x p →
    w'.disk.entryAt x = w.disk.entryAt x ∨ w'.disk.entryAt x = none
  /-- What has come is the database, or the index of a log that is there. -/
  came : ∀ {x}, w.disk.entryAt x = none → w'.disk.entryAt x ≠ none →
    (∃ n, w'.disk.entryAt x = some (.file n)) ∧
      (x = p ∨ Handle.logIndex ⟨0, some p⟩ = some x ∧ w.HasLog ⟨0, some p⟩)
  /-- Files that lie neither at the place nor beside it keep their content. -/
  content : ∀ {n}, n < w.disk.contents.length →
    (∀ x, x = p ∨ LiesBeside x p → w.disk.entryAt x ≠ some (.file n)) →
      w'.disk.contentOf n = w.disk.contentOf n

theorem OpensThrough.leavesElse (ho : OpensThrough w path timeout p v c) :
    LeavesElse (withDirectories w path) p (openAt w path timeout).1 := by
  have hgrows := ho.connects.grows
  obtain ⟨⟨hbound, hlog, hindex⟩, hundo⟩ := ho.leavesBeside
  have hu : Handle.undo ⟨0, some p⟩ = c.handle.undo := ho.beside_eq
  have hl : Handle.log ⟨0, some p⟩ = c.handle.log := ho.beside_eq
  have hi : Handle.logIndex ⟨0, some p⟩ = c.handle.logIndex := ho.beside_eq
  have helse : ∀ {x}, ¬LiesBeside x p → ((attach v c).makeTable c).world.disk.entryAt x =
      (attach v c).disk.entryAt x := fun hx =>
    hbound.disk.elsewhere fun ht => hx (ho.isBeside_iff.mp ht.isBeside)
  have haside : ∀ {x}, LiesAside x p → ((attach v c).makeTable c).world.disk.entryAt x =
      (withDirectories w path).disk.entryAt x ∨
        ((attach v c).makeTable c).world.disk.entryAt x = none := by
    intro x hx
    rw [← ho.entryAt_of_ne (ho.ne_of_isBeside (hx.imp id .inl))]
    rcases hx with hx | hx
    · exact hundo x (hu ▸ hx)
    · exact hlog (hl ▸ hx)
  refine ⟨fun {x e} he hx => ?_, fun {x} hx => ?_, fun {x} hx => ?_, fun {x} hnone hthere => ?_,
    fun {n} hn hx => ?_⟩
  · rw [ho.disk]
    by_cases hbeside : LiesBeside x p
    · -- The index is the only place beside the database that is left.
      have hx : c.handle.logIndex = some x := by
        rw [← hi]
        exact (hbeside.resolve_left fun h => hx (.inl h)).resolve_left fun h => hx (.inr h)
      have he' := (ho.entryAt_of_ne (ho.ne_of_isBeside hbeside)).trans he
      rcases hindex hx with hsame | ⟨hnone, -⟩
      · exact hsame.trans he'
      · rw [he'] at hnone
        exact absurd hnone (by simp)
    · exact (helse hbeside).trans (hgrows.kept he)
  · rw [ho.disk]
    exact hbound.disk.directory (hgrows.kept hx)
  · rw [ho.disk]
    exact haside hx
  · rw [ho.disk] at hthere ⊢
    by_cases hp : x = p
    · subst hp
      have hhosts := ho.leavesBeside.after ho.starts.hosts
      exact ⟨⟨_, hhosts.place ho.handle⟩, .inl rfl⟩
    have hnone' := (ho.entryAt_of_ne hp).trans hnone
    have hbeside : LiesBeside x p := by
      by_contra hbeside
      exact hthere ((helse hbeside).trans hnone')
    have hx : Handle.logIndex ⟨0, some p⟩ = some x := by
      have hnot : ¬LiesAside x p := fun hx => (haside hx).elim
        (fun hsame => hthere (hsame.trans hnone)) hthere
      exact (hbeside.resolve_left fun h => hnot (.inl h)).resolve_left fun h => hnot (.inr h)
    rw [hi] at hx
    rcases hindex hx with hsame | ⟨-, hfile⟩
    · exact absurd (hsame.trans hnone') hthere
    refine ⟨hfile, .inr ⟨hi.trans hx, ?_⟩⟩
    -- Without a log its index would not have been touched.
    by_contra hnolog
    refine hthere ((hbound.disk.elsewhere ?_).trans hnone')
    rintro (hux | ⟨-, l, hlx, hlthere⟩)
    · exact Handle.index_ne_of_undo hux hx
    · have hlx' : Handle.log ⟨0, some p⟩ = some l := hl.trans hlx
      rw [ho.entryAt_of_ne (ho.ne_of_isBeside (.inr (.inl hlx')))] at hlthere
      exact hnolog ⟨l, hlx', hlthere⟩
  · rw [ho.disk, ← ho.content_before hn]
    refine hbound.disk.content (Nat.lt_of_lt_of_le hn hgrows.disk.length)
      (ho.file_ne hn (hx p (.inl rfl))) ?_
    intro x ht
    have hbeside := ho.isBeside_iff.mp ht.isBeside
    rw [ho.entryAt_of_ne (ho.ne_of_isBeside hbeside)]
    exact hx x (.inr hbeside)

/-! ## 4. Where nothing lies beside the database -/

/-- Nothing lies at the places of the undo file and the log of a database at the place. -/
def IsBare (w : World) (p : Place) : Prop := ∀ x, LiesAside x p → w.disk.entryAt x = none

namespace OpensThrough

variable (ho : OpensThrough w path timeout p v c)
include ho

theorem bare (hbare : IsBare (withDirectories w path) p) {x : Place}
    (hx : c.handle.undo = some x ∨ c.handle.log = some x) : (attach v c).disk.entryAt x = none := by
  have haside : LiesAside x p := hx.imp (ho.beside_eq.trans ·) (ho.beside_eq.trans ·)
  rw [ho.entryAt_of_ne (ho.ne_of_isBeside (haside.imp id .inl))]
  exact hbare x haside

/-- **Where nothing lies beside the database, nothing but the database is touched.** -/
theorem leaves_all (hbare : IsBare (withDirectories w path) p) :
    (∀ x, x ≠ p → (openAt w path timeout).1.disk.entryAt x =
        (withDirectories w path).disk.entryAt x) ∧
      ∀ n < (withDirectories w path).disk.contents.length,
        (withDirectories w path).disk.entryAt p ≠ some (.file n) →
          (openAt w path timeout).1.disk.contentOf n =
            (withDirectories w path).disk.contentOf n := by
  have hbound := World.makeTable_untouched ho.starts.sound ho.starts.hosts
    (fun u hu => ho.bare hbare (.inl hu)) fun l hl => ho.bare hbare (.inr hl)
  have hgrows := ho.connects.grows
  refine ⟨fun x hx => ?_, fun n hn hp => ?_⟩
  · rw [ho.disk, hbound.disk.elsewhere id]
    exact ho.entryAt_of_ne hx
  · rw [ho.disk, ← ho.content_before hn]
    exact hbound.disk.content (Nat.lt_of_lt_of_le hn hgrows.disk.length) (ho.file_ne hn hp)
      fun _ h => h.elim

/-- **A store whose database is missing is opened**, if nothing lies beside the database, there is
room for the name of the undo file, and nobody uses the file that comes next. -/
theorem succeeds (hbare : IsBare (withDirectories w path) p) (hroom : World.HasRoom ⟨0, some p⟩)
    (hfree : (withDirectories w path).isShared (withDirectories w path).disk.nextNumber = false)
    (hnone : (withDirectories w path).disk.entryAt p = none) :
    ∃ s, (openAt w path timeout).2 = .ok s := by
  have ha : (withDirectories w path).AddsFile c.handle v := by
    refine ho.connects.file.resolve_left fun heq => ?_
    have hthere := ho.connects.hosts.place ho.handle
    rw [heq, hnone] at hthere
    exact absurd hthere (by simp)
  have hshares : World.Shares (attach v c) c := by
    refine ⟨ho.starts.sound, ho.starts.hosts, ⟨fun hu he => ?_, fun hl => ho.bare hbare (.inr hl)⟩,
      ho.connects.memory ▸ Memory.agrees_empty _⟩
    rw [ho.bare hbare (.inl hu)] at he
    exact absurd he (by simp)
  have halone : (attach v c).isShared c.handle.file = false := by
    have hlocks : (attach v c).locks = (withDirectories w path).locks := ho.connects.grows.locks
    have hconnections : (attach v c).connections =
        (withDirectories w path).connections ++ [some c] :=
      congrArg (· ++ [some c]) ho.connects.grows.connections
    rw [World.isShared_append hlocks hconnections, ha.number]
    · exact hfree
    · rintro d ⟨⟩
      exact .inr (by rw [ho.connects.memory])
  have hroom' : World.HasRoom c.handle := fun u hu => hroom u (ho.beside_eq.trans hu)
  exact ho.result.mpr (World.makeTable_blank hshares halone hroom' ha.content)

end OpensThrough

/-! ## 5. Opening again -/

/-- The directories above a database can all be looked up. -/
theorem lexicalPath_clean (hw : w.IsSound) (hnul : Text.nul ∉ path) {l : Path.Lexical}
    (hl : lexicalPath w path = .ok l) : ∀ m ∈ l.parent.inner, Disk.IsClean m := by
  intro m hm
  refine lexicalPath_almostClean hl m hm fun hm' => hnul ?_
  exact nul_mem_of_lexicalPath hw hl (Path.mem_text_of_mem hm hm')

theorem lexicalPath_eq (hcwd : w'.cwd = w.cwd) : lexicalPath w' path = lexicalPath w path := by
  unfold lexicalPath World.currentDirectory
  rw [hcwd]

/-- Where no link lay at the places of the undo file and the log, directories and links stay where
they are. -/
theorem LeavesElse.shape (h : LeavesElse w p w')
    (hlink : ∀ x t, LiesAside x p → w.disk.entryAt x ≠ some (.link t)) :
    w.disk.SameShape w'.disk := by
  have hback : ∀ {x e}, w'.disk.entryAt x = some e → (∀ n, e ≠ .file n) →
      w.disk.entryAt x = some e := by
    intro x e he hfile
    cases hx : w.disk.entryAt x with
    | none =>
      obtain ⟨⟨n, hn⟩, -⟩ := h.came hx (by simp [he])
      exact absurd (Option.some.inj (he.symm.trans hn)) (hfile n)
    | some e' =>
      by_cases haside : LiesAside x p
      · rcases h.aside haside with hsame | hgone
        · rw [← hx, ← hsame, he]
        · rw [hgone] at he
          exact absurd he (by simp)
      · rw [← he, h.kept hx haside]
  refine ⟨fun x => ⟨fun hx => hback hx (by simp), h.directory⟩, fun x t => ?_⟩
  exact ⟨fun hx => hback hx (by simp), fun hx => h.kept hx fun haside => hlink x t haside hx⟩

namespace OpensThrough

variable (ho : OpensThrough w path timeout p v c)
include ho

theorem cwd_eq (hw : w.IsSound) : (openAt w path timeout).1.cwd = w.cwd := by
  have hturn : ((attach v c).makeTable c).world.cwd = (attach v c).cwd :=
    ho.leavesBeside.1.bound.cwd
  rw [ho.world]
  exact (hturn.trans ho.connects.grows.cwd).trans (withDirectories_grows hw path).cwd

theorem after : (openAt w path timeout).1.IsSound ∧ (openAt w path timeout).1.Hosts c.handle := by
  have hbound := ho.leavesBeside.1.bound
  have hsound := hbound.sound ho.starts.sound
  have hhosts := ho.leavesBeside.1.after ho.starts.hosts
  rw [ho.world]
  exact ⟨⟨hsound.tree, hsound.cwd⟩, ⟨hhosts.number, hhosts.place⟩⟩

/-- **Opening makes the table**, or finds it. -/
theorem tableAt_of_ok (hw : w.IsSound) (hok : ∃ s, (openAt w path timeout).2 = .ok s) :
    (openAt w path timeout).1.tableAt p = some ((w.tableAt p).getD []) := by
  obtain ⟨s, hs⟩ := hok
  have hopened : openAt w path timeout = ((openAt w path timeout).1, .ok s) := by rw [← hs]
  obtain ⟨d, hd, hplace, hrows⟩ := CommandLine.opened_tableAt hw hopened
  rw [hd.starts.hosts.tableAt_eq (hplace.trans ho.place)]
  exact hrows (hplace.trans ho.place)

/-- **In a later world the path leads to the database or to none**, and the directories above it are
still there. -/
theorem later (hw : w.IsSound) (hnul : Text.nul ∉ path)
    (hshape : (withDirectories w path).disk.SameShape w'.disk) (hcwd : w'.cwd = w.cwd) :
    (∃ l, lexicalPath w path = .ok l ∧ w'.isDirectory l.parent.text = true) ∧
      withDirectories w' path = w' ∧ (place? w' path = some p ∨ place? w' path = none) := by
  obtain ⟨l, hl, hd, hprivate, hp⟩ := steps_of_place? ho.place
  have hclean := lexicalPath_clean hw hnul hl
  have hcwd' : w'.cwd = (withDirectories w path).cwd :=
    hcwd.trans (withDirectories_grows hw path).cwd.symm
  have hmakes := World.makeDirectories_above l.parent hclean hw
  rw [hd] at hmakes
  have hparent := World.isDirectory_later hshape hcwd' (hmakes.done rfl)
  have hl' : lexicalPath w' path = .ok l := (lexicalPath_eq hcwd).trans hl
  have hd' := World.makeDirectories_of_isDirectory hclean hparent
  have hwith : withDirectories w' path = w' := by simp only [withDirectories, hl', hd']
  refine ⟨⟨l, hl, hparent⟩, hwith, ?_⟩
  rw [place?_eq hl' (hwith.symm ▸ hd'), hprivate, if_neg (by simp), hwith]
  exact World.databasePlace?_later hshape hcwd' hp

/-- **Opening the same path again adds nothing**, if no link lay at the places of the undo file and
the log. -/
theorem again (hw : w.IsSound) (hnul : Text.nul ∉ path)
    (hok : ∃ s, (openAt w path timeout).2 = .ok s)
    (hlink : ∀ x t, LiesAside x p → (withDirectories w path).disk.entryAt x ≠ some (.link t))
    (timeout' : Binary64) :
    AddsNothing (openAt w path timeout).1
      (openAt (openAt w path timeout).1 path timeout').1 := by
  obtain ⟨hw', hh'⟩ := ho.after
  have hrows := ho.tableAt_of_ok hw hok
  have hindexed : (openAt w path timeout).1.IsIndexed c.handle := by
    have hfresh : c.memory.isLogging = false := by rw [ho.connects.memory]
    have hturn := World.makeTable_isIndexed ho.starts.sound ho.starts.hosts hfresh
      (ho.result.mp hok)
    rw [ho.world]
    exact hturn
  obtain ⟨-, hwith, hplace⟩ := ho.later hw hnul (ho.leavesElse.shape hlink) (ho.cwd_eq hw)
  obtain ⟨-, -, -, hprivate, -⟩ := steps_of_place? ho.place
  generalize (openAt w path timeout).1 = w' at *
  rcases openAt_through hw' hprivate timeout' with ⟨e, hfails⟩ | ⟨q, v', c', ho'⟩
  · rw [hfails, hwith]
    exact fun _ => id
  obtain rfl : p = q := by
    rcases hplace with hsame | hnone
    · exact Option.some.inj (hsame.symm.trans ho'.place)
    · rw [ho'.place] at hnone
      exact absurd hnone (by simp)
  -- The database is there by now, so that the second time no file is made.
  have hthere := hh'.place ho.handle
  obtain rfl : v' = w' := by
    have hfile := ho'.connects.file
    rw [hwith] at hfile
    refine hfile.resolve_right fun ha => ?_
    rw [ha.place ho'.handle] at hthere
    exact absurd hthere (by simp)
  have hsame : c'.handle = c.handle := ho'.connects.hosts.eq_of_place hh' ho'.handle ho.handle
  intro x hx
  rw [ho'.disk]
  have htable : (attach v' c').table? c'.handle = some ((w.tableAt p).getD []) := by
    rw [← hrows]
    exact (ho'.starts.hosts.tableAt_eq ho'.handle).symm
  exact World.makeTable_adds_nothing ho'.starts (hsame ▸ hindexed) htable x hx

end OpensThrough

end Store

end CompileJournal
