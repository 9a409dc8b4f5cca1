import CompileJournal.Proofs.Journal.Ready

/-!
# Connections that share a database

When several connections use one database, what each of them remembers may be older than what the
file holds.  It is never wrong in a way that matters: an image that is remembered is either the one
in the file or was changed since, and then it bears another stamp; and if the table has come or
gone since the schema was read, the revision has grown.  That is the invariant here, and a change
by anybody keeps it for everybody.

It needs a database that is *tidy*: no log, and no undo file but that of a transaction from
outside that is going to start the database.  An access to a tidy database can be told exactly: it
sees what the file holds, unless a lock is in its way.

* `Memory.Agrees`, `Agrees.see`, `Agrees.advance`: what is remembered, when the file is read and
  when somebody changes it;
* `World.IsTidy`, `World.Shares`: a tidy database, and a connection to one;
* `beginRead_eq`, `beginWrite_image`, `keep_image`: the steps of an access.
-/

namespace CompileJournal

/-! ## 1. Memories that may be old -/

/-- An image takes the place of a content: the file was blank or held an earlier image, the number
of changes grows, and the revision grows if the table comes or goes. -/
structure Content.Advances (c : Content) (i : Image) : Prop where
  fits : c.isBlank = true ∨ ∃ j, c = .database j
  changes : ∀ j, c = .database j → j.changes < i.changes
  schema : Image.schema c.image? = Image.schema (some i) ∨
    (Image.schema c.image?).revision < i.revision

theorem Image.withRows_advances {i : Image} {rows : Table} (hrows : i.table = some rows)
    (rows' : Table) : (Content.database i).Advances (i.withRows true rows') where
  fits := .inr ⟨i, rfl⟩
  changes j hj := by
    obtain rfl := Content.database.inj hj
    exact Nat.lt_succ_self _
  schema := .inl (by simp [Image.schema, Content.image?, Image.withRows, hrows])

theorem Image.withTable_advances {c : Content} (hc : c.isBlank = true ∨ ∃ j, c = .database j)
    (table : Option Table) : c.Advances (Image.withTable c.image? table) where
  fits := hc
  changes j hj := by
    subst hj
    exact Nat.lt_succ_self _
  schema := by
    refine .inr ?_
    cases c with
    | text t => exact Nat.zero_lt_one
    | database j => exact Nat.lt_succ_self _

namespace Memory

/-- What is remembered of a file that holds `c` now, by a connection that does not use a log. -/
structure Agrees (m : Memory) (c : Content) : Prop where
  isLogging : m.isLogging = false
  stamp : ∀ s, m.stamp = some s → ∃ i, c = .database i
  blank : m.page = .blank → m.stamp = none ∧ (c.isBlank = true ∨ ∃ i, c = .database i)
  image : ∀ j, m.page = .image j →
    m.stamp = some j.stamp ∧ ∃ i, c = .database i ∧ (j = i ∨ j.changes < i.changes)
  schema : ∀ s, m.schema = some s →
    s = Image.schema c.image? ∨ s.revision < (Image.schema c.image?).revision

/-- What is remembered when a file was looked at. -/
def see (m : Memory) (c : Content) : Memory := ((m.refresh c).look c).1

variable {m : Memory} {c : Content} {i : Image}

theorem agrees_empty (c : Content) : ({} : Memory).Agrees c where
  isLogging := rfl
  stamp _ h := absurd h (by simp)
  blank h := absurd h (by simp)
  image _ h := absurd h (by simp)
  schema _ h := absurd h (by simp)

namespace Agrees

theorem refresh (h : m.Agrees c) : (m.refresh c).Agrees c := by
  unfold Memory.refresh
  split
  · exact h
  · exact ⟨h.isLogging, h.stamp, fun hp => absurd hp (by simp), fun _ hp => absurd hp (by simp),
      h.schema⟩

/-- **What is kept of a file is right once it was refreshed**, since an old image bears another
stamp. -/
theorem recalls (h : m.Agrees c) : (m.refresh c).Recalls c := by
  unfold Memory.refresh
  split
  · next hcond =>
    obtain ⟨-, hstamp⟩ := hcond
    unfold Recalls
    cases hpage : m.page with
    | unread => trivial
    | blank =>
      obtain ⟨hnone, hblank | ⟨i, rfl⟩⟩ := h.blank hpage
      · exact hblank
      · rw [hnone] at hstamp
        exact absurd hstamp (by simp [Content.image?])
    | image j =>
      obtain ⟨hsome, i, rfl, hji | hlt⟩ := h.image j hpage
      · rw [hji]
      · rw [hsome] at hstamp
        have hchanges : i.changes = j.changes :=
          congrArg Stamp.changes (Option.some.inj hstamp)
        exact absurd hchanges (Nat.ne_of_gt hlt)
  · trivial

theorem look (h : m.Agrees c) (hr : m.Recalls c) : (m.look c).1.Agrees c := by
  unfold Memory.look
  split
  · next hblank =>
    split
    · refine ⟨h.isLogging, h.stamp, fun _ => ⟨?_, .inl hblank⟩, fun _ hp => absurd hp (by simp),
        h.schema⟩
      cases hs : m.stamp with
      | none => rfl
      | some s =>
        obtain ⟨i, rfl⟩ := h.stamp s hs
        exact absurd hblank (by simp [Content.isBlank])
    · exact h
  · cases hpage : m.page with
    | image _ | blank => exact h
    | unread =>
      cases c with
      | text t =>
        exact ⟨h.isLogging, fun _ hs => absurd hs (by simp),
          fun hp => absurd hp (by simp), fun _ hp => absurd hp (by simp), h.schema⟩
      | database i =>
        refine ⟨h.isLogging, fun _ _ => ⟨i, rfl⟩, fun hp => absurd hp (by simp), ?_, h.schema⟩
        rintro j ⟨⟩
        exact ⟨rfl, i, rfl, .inl rfl⟩

/-- **Looking at a file shows what it holds**, however old the memory is. -/
theorem see (h : m.Agrees c) : (m.see c).Agrees c ∧ (m.see c).schema = m.schema ∧
    (m.see c).ready = m.ready ∧ ((m.refresh c).look c).2 = c.seen := by
  obtain ⟨-, hschema, hready, -, hseen⟩ := look_spec h.recalls
  exact ⟨h.refresh.look h.recalls, hschema.trans (refresh_schema ..),
    hready.trans (refresh_ready ..), hseen⟩

/-- The schema of the file is remembered. -/
theorem withSchema (h : m.Agrees c) :
    ({ m with schema := some (Image.schema c.image?) } : Memory).Agrees c :=
  ⟨h.isLogging, h.stamp, h.blank, h.image, fun _ hs => .inl (Option.some.inj hs).symm⟩

theorem withReady (h : m.Agrees c) (ready : List Query) :
    ({ m with ready := ready } : Memory).Agrees c :=
  ⟨h.isLogging, h.stamp, h.blank, h.image, h.schema⟩

theorem learn (h : m.Agrees c) (q : Query) : (m.learn q).Agrees c := by
  unfold Memory.learn
  split
  · exact h
  · exact h.withReady _

/-- **A change by anybody keeps what the others remember.** -/
theorem advance (h : m.Agrees c) (hc : c.Advances i) : m.Agrees (.database i) where
  isLogging := h.isLogging
  stamp _ _ := ⟨i, rfl⟩
  blank hp := ⟨(h.blank hp).1, .inr ⟨i, rfl⟩⟩
  image j hp := by
    obtain ⟨hstamp, k, rfl, hjk⟩ := h.image j hp
    refine ⟨hstamp, i, rfl, .inr ?_⟩
    have hlt := hc.changes k rfl
    rcases hjk with rfl | hjk
    · exact hlt
    · exact Nat.lt_trans hjk hlt
  schema s hs := by
    rcases h.schema s hs with rfl | hlt
    · exact hc.schema
    · refine .inr ?_
      rcases hc.schema with heq | hlt'
      · rw [heq] at hlt
        exact hlt
      · exact Nat.lt_trans hlt hlt'

/-- Whoever has written an image remembers it. -/
theorem wrote (hm : m.isLogging = false) (i : Image) : (m.wrote i).Agrees (.database i) where
  isLogging := hm
  stamp _ _ := ⟨i, rfl⟩
  blank hp := absurd hp (by simp [Memory.wrote])
  image j hp := by
    obtain rfl : i = j := Page.image.inj hp
    exact ⟨rfl, i, rfl, .inl rfl⟩
  schema _ hs := .inl (Option.some.inj hs).symm

end Agrees

end Memory

namespace World

variable {w w' : World} {h : Handle} {c : Connection} {i : Image} {q : Query} {α β : Type}

/-! ## 2. Tidy databases -/

/-- Nothing lies where the undo file and the log of a database go, except for the undo file of a
transaction from outside that is going to start the database. -/
structure IsTidy (w : World) (h : Handle) : Prop where
  undo : ∀ {u e}, h.undo = some u → w.disk.entryAt u = some e →
    (∃ n, e = .file n) ∧ w.isClaimed h.file = true ∧ (w.content h).isBlank = true
  log : ∀ {l}, h.log = some l → w.disk.entryAt l = none

theorem IsTidy.undo_none (ht : w.IsTidy h) (hc : w.content h = .database i) {u : Place}
    (hu : h.undo = some u) : w.disk.entryAt u = none := by
  cases he : w.disk.entryAt u with
  | none => rfl
  | some e =>
    obtain ⟨-, -, hblank⟩ := ht.undo hu he
    rw [hc] at hblank
    exact absurd hblank (by simp [Content.isBlank])

theorem IsTidy.undo_of_free (ht : w.IsTidy h) (hfree : w.isClaimed h.file = false) {u : Place}
    (hu : h.undo = some u) : w.disk.entryAt u = none := by
  cases he : w.disk.entryAt u with
  | none => rfl
  | some e =>
    obtain ⟨-, hclaimed, -⟩ := ht.undo hu he
    rw [hfree] at hclaimed
    exact absurd hclaimed (by simp)

/-- There is nothing to be settled beside a tidy database. -/
theorem settleUndo_of_isTidy (hw : w.IsSound) (hh : w.Hosts h) (ht : w.IsTidy h) :
    w.settleUndo h = (w, .ok ()) := by
  unfold settleUndo
  split
  · rfl
  next u hu =>
  cases he : w.disk.entryAt u with
  | none => simp [isSolid_of_none hw hh (.inl hu) he]
  | some e => simp [(ht.undo hu he).2.1]

theorem settleLog_of_isTidy (hw : w.IsSound) (hh : w.Hosts h) (ht : w.IsTidy h) :
    w.settleLog h = (w, .ok false) := by
  unfold settleLog
  split
  · rfl
  · next l hl => simp [isSolid_of_none hw hh (.inr (.inl hl)) (ht.log hl)]

/-- A connection to a tidy database, which others may use too. -/
structure Shares (w : World) (c : Connection) : Prop where
  sound : w.IsSound
  hosts : w.Hosts c.handle
  tidy : w.IsTidy c.handle
  agrees : c.memory.Agrees (w.content c.handle)

theorem Shares.remember (h : Shares w c) {m : Memory}
    (hm : m.Agrees (w.content c.handle)) : Shares w (c.remember m) :=
  ⟨h.sound, h.hosts, h.tidy, hm⟩

/-- Who closes a database off claims it, and who claims it uses it. -/
theorem isShared_of_isClaimed {n : FileNumber} (h : w.isClaimed n = true) :
    w.isShared n = true := by
  by_contra hfree
  rw [Bool.not_eq_true] at hfree
  rw [(free_of_not_shared hfree).2.1] at h
  exact absurd h (by simp)

theorem isClaimed_of_isClosedOff {n : FileNumber} (h : w.isClosedOff n = true) :
    w.isClaimed n = true := by
  obtain ⟨l, hl, hcond⟩ := List.any_eq_true.mp h
  simp only [Bool.and_eq_true, decide_eq_true_eq, Bool.not_eq_true'] at hcond
  refine List.any_eq_true.mpr ⟨l, hl, ?_⟩
  simp [hcond.1.1, hcond.1.2, hcond.2, LockMode.writes]

/-! ## 3. Beginning an access -/

theorem refresh_refresh (m : Memory) (c : Content) :
    (m.refresh c).refresh c = m.refresh c := by
  unfold Memory.refresh
  split
  · rfl
  · rfl

/-- **Reading a tidy database** shows what it holds, unless somebody has closed it off. -/
theorem beginRead_eq (h : Shares w c) : w.beginRead c =
    if w.isClosedOff c.handle.file then ⟨w, c, .error .locked⟩
    else ⟨w, c.remember (c.memory.see (w.content c.handle)), (w.content c.handle).seen⟩ := by
  have hlogging : ({ c.memory.refresh (w.content c.handle) with isLogging := false } : Memory) =
      c.memory.refresh (w.content c.handle) := by
    rw [← h.agrees.refresh.isLogging]
  have hseen := h.agrees.see.2.2.2
  unfold beginRead
  simp only [h.agrees.isLogging, Bool.false_eq_true, if_false,
    settleUndo_of_isTidy h.sound h.hosts h.tidy, settleLog_of_isTidy h.sound h.hosts h.tidy]
  split
  · rfl
  · simp only [look, hlogging, Connection.remember, refresh_refresh, hseen]
    rfl

/-- A claimed database cannot be changed by others.  One that holds an image and is not claimed
can be, as long as nothing has to be kept. -/
theorem beginWrite_image (h : Shares w c) (hc : w.content c.handle = .database i)
    (closesOff : Bool) : w.beginWrite c closesOff =
      if w.isClosedOff c.handle.file then ⟨w, c, .error .locked⟩
      else ⟨w, c.remember (c.memory.see (w.content c.handle)),
        if w.isClaimed c.handle.file || (closesOff && w.isShared c.handle.file)
        then .error .locked else .ok (some i)⟩ := by
  have hlogging : (c.memory.see (w.content c.handle)).isLogging = false :=
    h.agrees.see.1.isLogging
  unfold beginWrite
  rw [beginRead_eq h]
  cases hclosed : w.isClosedOff c.handle.file with
  | true => rfl
  | false =>
    rw [hc] at hlogging ⊢
    simp only [Bool.false_eq_true, if_false, Content.seen_database, Connection.remember, hlogging,
      Option.isSome_some, if_true]
    split
    · rfl
    · rfl

/-! ## 4. Keeping a change -/

/-- There is room for the name of the undo file of a database. -/
def HasRoom (h : Handle) : Prop :=
  ∀ u, h.undo = some u → Text.byteCount (u.headD []) ≤ Disk.maxName

/-- An undo file that was made and removed leaves no trace. -/
theorem undone_still (hw : w.IsSound) (hh : w.Hosts h) {u : Place} (hu : h.undo = some u)
    (hnone : w.disk.entryAt u = none) :
    w.ChangesOnly (fun _ => False) (fun _ => False) ((w.putFile u .undo).dropUndo h) := by
  have hput : w.ChangesOnly (fun x => h.undo = some x) (fun _ => False) (w.putFile u .undo) :=
    putFile_bounded hw hh (.inl hu) hu .undo
  have hput' : w.ChangesOnly h.IsBeside (fun _ => False) (w.putFile u .undo) :=
    hput.mono (fun _ => .inl) fun _ h => h
  have hdrop : (w.putFile u .undo).ChangesOnly (fun x => h.undo = some x) (fun _ => False)
      ((w.putFile u .undo).dropUndo h) :=
    dropUndo_bounded (hput.sound hw) (hh.after hput') fun _ h => h
  have hboth := hput.trans hdrop
  refine ⟨hboth.disk.still
    (entryAt_dropUndo hw hh hu hnone (hput.sound hw) (hh.after hput') fun _ => rfl) ?_, hboth.rest⟩
  intro x n hx
  obtain rfl := Option.some.inj (hu.symm.trans hx)
  simp [hnone]

/-- A new image is all that a change leaves whose undo file was made and removed. -/
theorem setImage_undone_still (hw : w.IsSound) (hh : w.Hosts h) {u : Place}
    (hu : h.undo = some u) (hnone : w.disk.entryAt u = none) (j : Image) :
    w.ChangesOnly (fun _ => False) (· = h.file)
        (((w.putFile u .undo).setImage h j).dropUndo h) ∧
      (((w.putFile u .undo).setImage h j).dropUndo h).content h = .database j := by
  have hput : w.ChangesOnly (fun x => h.undo = some x) (· = h.file) (w.putFile u .undo) :=
    putFile_bounded hw hh (.inl hu) hu .undo
  have hv := hput.sound hw
  have hh' : (w.putFile u .undo).Hosts h := hh.after (hput.mono (fun _ => .inl) fun _ h => h)
  have hset : (w.putFile u .undo).ChangesOnly (fun x => h.undo = some x) (· = h.file)
      ((w.putFile u .undo).setImage h j) := ⟨.setContent hv.tree _ (.inl rfl), rfl⟩
  have hh'' := hh'.after (setImage_bounded hv j)
  have hdrop : ((w.putFile u .undo).setImage h j).ChangesOnly (fun x => h.undo = some x)
      (fun _ => False) (((w.putFile u .undo).setImage h j).dropUndo h) :=
    dropUndo_bounded (hset.sound hv) hh'' fun _ h => h
  have hall := (hput.trans hset).trans (hdrop.mono (fun _ h => h) fun _ h => h.elim)
  refine ⟨⟨hall.disk.still (entryAt_of_undone hw hh hu hnone j) ?_, hall.rest⟩, ?_⟩
  · intro x n hx
    obtain rfl := Option.some.inj (hu.symm.trans hx)
    simp [hnone]
  · rw [hh''.content_eq (hset.sound hv) (hdrop.mono (fun _ => .inl) fun _ h => h)]
    exact content_setImage hh'.number j

/-- A change of a private database needs no undo file. -/
theorem setImage_still (hw : w.IsSound) (hh : w.Hosts h) (j : Image) :
    w.ChangesOnly (fun _ => False) (· = h.file) (w.setImage h j) ∧
      (w.setImage h j).content h = .database j :=
  ⟨⟨.setContent hw.tree _ (.inl rfl), rfl⟩, content_setImage hh.number j⟩

/-- What keeping a change leaves: the new image, or no trace. -/
structure Keeps (w : World) (c : Connection) (j : Image) (t : Turn Unit) : Prop where
  kept : w.isShared c.handle.file = false → t.result = .ok () ∧
    t.connection = c.remember (c.memory.wrote j) ∧
    w.ChangesOnly (fun _ => False) (· = c.handle.file) t.world ∧
    t.world.content c.handle = .database j
  refused : w.isShared c.handle.file = true → t.result = .error .locked ∧ t.connection = c ∧
    w.ChangesOnly (fun _ => False) (fun _ => False) t.world

/-- The end of a change, once its undo file was opened. -/
theorem keeps_of_openUndo (h : Shares w c)
    (hnone : ∀ u, c.handle.undo = some u → w.disk.entryAt u = none)
    (hopen : w.openUndo c.handle = (w', .ok ())) (j : Image) :
    Keeps w c j (if w'.isShared c.handle.file then ⟨w'.dropUndo c.handle, c, .error .locked⟩
      else ⟨(w'.setImage c.handle j).dropUndo c.handle, c.remember (c.memory.wrote j), .ok ()⟩) := by
  cases hu : c.handle.undo with
  | none =>
    have hdrop : ∀ v : World, v.dropUndo c.handle = v := by
      intro v
      rw [dropUndo, hu]
    rw [openUndo_of_private hu] at hopen
    cases hopen
    simp only [hdrop]
    refine ⟨fun halone => ?_, fun hshared => ?_⟩
    · simp only [halone, Bool.false_eq_true, if_false, true_and]
      exact setImage_still h.sound h.hosts j
    · simp only [hshared, if_true, true_and]
      exact .refl h.sound
  | some u =>
    obtain ⟨rfl, -, -, -⟩ := openUndo_leaf h.sound h.hosts hu hopen
    have hput : w.ChangesOnly c.handle.IsBeside (fun _ => False) (w.putFile u .undo) :=
      putFile_bounded h.sound h.hosts (.inl hu) (.inl hu) .undo
    rw [isShared_eq hput.locks hput.connections]
    refine ⟨fun halone => ?_, fun hshared => ?_⟩
    · simp only [halone, Bool.false_eq_true, if_false, true_and]
      exact setImage_undone_still h.sound h.hosts hu (hnone u hu) j
    · simp only [hshared, if_true, true_and]
      exact undone_still h.sound h.hosts hu (hnone u hu)

/-- The undo file can be opened if there is room for its name. -/
theorem openUndo_of_room (hw : w.IsSound) (hh : w.Hosts h)
    (hnone : ∀ u, h.undo = some u → w.disk.entryAt u = none) (hroom : HasRoom h) :
    ∃ w', w.openUndo h = (w', .ok ()) := by
  cases hu : h.undo with
  | none => exact ⟨w, openUndo_of_private hu⟩
  | some u => exact ⟨_, openUndo_of_none hw hh hu (hnone u hu) (hroom u hu)⟩

/-- **A change of a tidy database is kept if nobody else uses it**, and otherwise leaves no
trace. -/
theorem keep_image (h : Shares w c) (hc : w.content c.handle = .database i)
    (hroom : HasRoom c.handle) (j : Image) : Keeps w c j (w.keep c (some i) j) := by
  have hnone : ∀ u, c.handle.undo = some u → w.disk.entryAt u = none :=
    fun u => h.tidy.undo_none hc
  obtain ⟨w', hopen⟩ := openUndo_of_room h.sound h.hosts hnone hroom
  unfold keep
  simp only [h.agrees.isLogging, Bool.false_eq_true, if_false, Option.isSome_some, if_true, hopen]
  exact keeps_of_openUndo h hnone hopen j

/-- A database is started by its first change, whose undo file was opened when it began. -/
theorem keep_blank (h : Shares w c) (hfree : w.isClaimed c.handle.file = false)
    (hopen : w.openUndo c.handle = (w', .ok ())) (j : Image) :
    Keeps w c j (w'.keep c none j) := by
  unfold keep
  simp only [h.agrees.isLogging, Bool.false_eq_true, if_false, Option.isSome_none]
  exact keeps_of_openUndo h (fun u => h.tidy.undo_of_free hfree) hopen j

/-- A blank database that nobody claims can be started if the undo file can be opened.  If it
cannot, there is no room for its name. -/
theorem openUndo_blank (hw : w.IsSound) (hh : w.Hosts h) (ht : w.IsTidy h)
    (hfree : w.isClaimed h.file = false) (hblank : (w.content h).isBlank = true) :
    (∃ w', w.openUndo h = (w', .ok ()) ∧ HasRoom h) ∨
      w.openUndo h = (w, .error .cannotOpen) ∧ ¬HasRoom h := by
  by_cases hroom : HasRoom h
  · obtain ⟨w', hopen⟩ := openUndo_of_room hw hh (fun u => ht.undo_of_free hfree) hroom
    exact .inl ⟨w', hopen, hroom⟩
  · refine .inr ⟨?_, hroom⟩
    obtain ⟨u, hu, hlong⟩ : ∃ u, h.undo = some u ∧ Disk.maxName < Text.byteCount (u.headD []) := by
      simpa [HasRoom] using hroom
    rw [openUndo, hu]
    simp only [hblank, Bool.not_true, Bool.false_and, Bool.false_eq_true, if_false, hh.hasName hw,
      if_pos hlong]

end World

end CompileJournal
