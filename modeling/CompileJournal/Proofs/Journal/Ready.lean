import CompileJournal.Proofs.Journal.Change

/-!
# One change clears the way for the next

Whether a change succeeds depends on the locks, on what lies beside the database and on what the
connection remembers.  None of that has to be asked twice: a change that was kept has removed its
undo file, has found no log in use or uses it itself, and has met nobody in its way.  So the next
change through the same connection is kept as well, and it leaves every entry of the disk where it
is.

* `IsReady`: nothing stands in the way of a change;
* `putRow_isReady`: a change that was kept makes ready for the next;
* `putRow_of_isReady`: what is ready succeeds, and moves nothing.
-/

namespace CompileJournal

namespace World

variable {w w' : World} {h : Handle} {c : Connection} {n : FileNumber}

/-! ## 1. Locks -/

theorem isShared_eq (hlocks : w'.locks = w.locks) (hconnections : w'.connections = w.connections)
    (n : FileNumber) : w'.isShared n = w.isShared n := by
  rw [isShared, isShared, hlocks, hconnections]

theorem deferred_of_not_shared (h : w.isShared n = false) {l : Lock} (hl : l ∈ w.locks)
    (hfile : l.handle.file = n) : l.mode = .deferred := by
  rw [isShared, Bool.or_eq_false_iff] at h
  have hl := List.any_eq_false.mp h.1 l hl
  simpa [hfile] using hl

/-- Whoever has nobody beside him has nobody in front of him. -/
theorem free_of_not_shared (h : w.isShared n = false) :
    w.isClosedOff n = false ∧ w.isClaimed n = false ∧ w.isLogClaimed n = false := by
  have hdeferred : ∀ l ∈ w.locks, l.handle.file = n → l.mode = .deferred := fun _ hl hfile =>
    deferred_of_not_shared h hl hfile
  refine ⟨?_, ?_, ?_⟩
  all_goals
    refine List.any_eq_false.mpr ?_
    intro l hl
    by_cases hfile : l.handle.file = n
    · simp [hdeferred l hl hfile, LockMode.writes]
    · simp [hfile]

/-! ## 2. Nothing at a place -/

/-- No path leads to a place in a directory where nothing lies. -/
theorem followPlace_none (hw : w.IsSound) (hh : w.Hosts h) {x : Place} (hx : h.IsBeside x)
    (hnone : w.disk.entryAt x = none) : w.followPlace x = none := by
  obtain ⟨name, outer, rfl, hname, houter⟩ := hh.isBeside hw hx
  unfold followPlace
  split
  · rfl
  next q hq =>
  exfalso
  obtain ⟨k, hk, hleads⟩ := Disk.find_eq_ok_iff.mp hq
  rw [List.reverse_cons] at hleads
  obtain ⟨i, j, mid, hfirst, hlast, -⟩ := hleads.split rfl
  have houterLeads := Disk.leads_place hw.tree houter (by simp)
  obtain rfl : mid = outer := hfirst.unique houterLeads
  cases hlast with
  | stay _ hstay => exact hstay.elim hname.ne_nil hname.ne_here
  | above => exact hname.ne_above rfl
  | down _ _ _ he | follow _ _ _ he =>
    rw [hnone] at he
    exact absurd he (by simp)

theorem isSolid_of_none (hw : w.IsSound) (hh : w.Hosts h) {x : Place} (hx : h.IsBeside x)
    (hnone : w.disk.entryAt x = none) : w.isSolid x = false := by
  rw [isSolid, followPlace_none hw hh hx hnone]

/-- A database that was opened at a place is found there. -/
theorem Hosts.followPlace_eq (hh : w.Hosts h) (hw : w.IsSound) {p : Place}
    (hp : h.place = some p) : w.followPlace p = some (.file h.file) := by
  have hentry := hh.place hp
  rw [followPlace, Disk.find_place hw.tree hentry (by simp)]
  exact hentry

theorem Hosts.hasName (hh : w.Hosts h) (hw : w.IsSound) : w.hasName h = true := by
  unfold World.hasName
  split
  · rfl
  · next p hp => rw [hh.followPlace_eq hw hp, Option.isSome_some]

theorem Hosts.isInPlace (hh : w.Hosts h) (hw : w.IsSound) : w.isInPlace h = true := by
  unfold World.isInPlace
  split
  · rfl
  · next p hp => simp [hh.followPlace_eq hw hp]

/-! ## 3. A clear way -/

/-- Nobody else uses the database, there is no undo file but room for one, and no log. -/
structure IsClear (w : World) (h : Handle) : Prop where
  alone : w.isShared h.file = false
  undo : ∀ u, h.undo = some u →
    w.disk.entryAt u = none ∧ Text.byteCount (u.headD []) ≤ Disk.maxName
  log : ∀ l, h.log = some l → w.isSolid l = false

theorem settleUndo_of_isClear (hw : w.IsSound) (hh : w.Hosts h) (hc : w.IsClear h) :
    w.settleUndo h = (w, .ok ()) := by
  unfold settleUndo
  split
  · rfl
  · next u hu => simp [isSolid_of_none hw hh (.inl hu) (hc.undo u hu).1]

theorem settleLog_of_isClear (hc : w.IsClear h) : w.settleLog h = (w, .ok false) := by
  unfold settleLog
  split
  · rfl
  · next l hl => simp [hc.log l hl]

theorem openUndo_of_private (hu : h.undo = none) : w.openUndo h = (w, .ok ()) := by
  rw [openUndo, hu]

/-- The undo file of a change comes to its place if there is room for its name. -/
theorem openUndo_of_none (hw : w.IsSound) (hh : w.Hosts h) {u : Place} (hu : h.undo = some u)
    (hnone : w.disk.entryAt u = none) (hroom : Text.byteCount (u.headD []) ≤ Disk.maxName) :
    w.openUndo h = (w.putFile u .undo, .ok ()) := by
  have hlook : w.lookPlace u = none := by
    obtain ⟨name, outer, rfl, -, houter⟩ := hh.isBeside hw (.inl hu)
    rw [lookPlace_eq hw houter, hnone]
  unfold openUndo
  rw [hu]
  simp only [hh.isInPlace hw, hh.hasName hw, hlook, if_neg (Nat.not_lt.mpr hroom)]
  simp

theorem openUndo_of_isClear (hw : w.IsSound) (hh : w.Hosts h) (hc : w.IsClear h) {u : Place}
    (hu : h.undo = some u) : w.openUndo h = (w.putFile u .undo, .ok ()) :=
  openUndo_of_none hw hh hu (hc.undo u hu).1 (hc.undo u hu).2

theorem dropUndo_of_some {u : Place} (hu : h.undo = some u) : w.dropUndo h = w.unlink u := by
  rw [dropUndo, hu]

/-- The undo file of a change goes again, and all else is where it was. -/
theorem entryAt_dropUndo {v : World} (hw : w.IsSound) (hh : w.Hosts h) {u : Place}
    (hu : h.undo = some u) (hnone : w.disk.entryAt u = none) (hv : v.IsSound) (hh' : v.Hosts h)
    (hentry : ∀ y, v.disk.entryAt y = (w.putFile u .undo).disk.entryAt y) (x : Place) :
    (v.dropUndo h).disk.entryAt x = w.disk.entryAt x := by
  rw [dropUndo_of_some hu, entryAt_unlink hv hh' (.inl hu), hentry, hentry]
  rcases entryAt_putFile hw hh (.inl hu) .undo x with hsame | ⟨rfl, -, hfile⟩
  · split
    · next hx => rw [hx.1, hnone]
    · exact hsame
  · rw [hfile, hnone, if_pos ⟨rfl, by simp⟩]

theorem entryAt_of_undone (hw : w.IsSound) (hh : w.Hosts h) {u : Place} (hu : h.undo = some u)
    (hnone : w.disk.entryAt u = none) (i : Image) (x : Place) :
    (((w.putFile u .undo).setImage h i).dropUndo h).disk.entryAt x = w.disk.entryAt x := by
  have hput : w.ChangesOnly h.IsBeside (· = h.file) (w.putFile u .undo) :=
    putFile_bounded hw hh (.inl hu) (.inl hu) .undo
  have hset := setImage_bounded (h := h) (hput.sound hw) i
  exact entryAt_dropUndo hw hh hu hnone (hset.sound (hput.sound hw)) ((hh.after hput).after hset)
    (fun y => Disk.entryAt_setContent ..) x

/-- A change whose way is clear is kept, and moves nothing. -/
theorem keep_of_isClear (hs : Starts w c) (hlogging : c.memory.isLogging = false)
    (hc : w.IsClear c.handle) (j i : Image) :
    ∃ w', w.keep c (some j) i = ⟨w', c.remember (c.memory.wrote i), .ok ()⟩ ∧
      ∀ x, w'.disk.entryAt x = w.disk.entryAt x := by
  unfold keep
  simp only [hlogging, Option.isSome_some, if_true, Bool.false_eq_true, if_false]
  cases hu : c.handle.undo with
  | none =>
    simp only [openUndo_of_private hu, hc.alone, Bool.false_eq_true, if_false]
    refine ⟨_, rfl, ?_⟩
    intro x
    rw [dropUndo, hu]
    exact Disk.entryAt_setContent ..
  | some u =>
    have hput : w.ChangesOnly c.handle.IsBeside (fun _ => False) (w.putFile u .undo) :=
      putFile_bounded hs.sound hs.hosts (.inl hu) (.inl hu) .undo
    have halone : (w.putFile u .undo).isShared c.handle.file = false := by
      rw [isShared_eq hput.locks hput.connections, hc.alone]
    simp only [openUndo_of_isClear hs.sound hs.hosts hc hu, halone, Bool.false_eq_true, if_false]
    exact ⟨_, rfl, entryAt_of_undone hs.sound hs.hosts hu (hc.undo u hu).1 i⟩

/-! ## 4. Readiness -/

/-- Nothing stands in the way of a change: the connection knows of the table, and the change can
go to the log, or to the database itself. -/
structure IsReady (w : World) (c : Connection) : Prop where
  knows : Knows c
  way : if c.memory.isLogging then w.isLogClaimed c.handle.file = false
    else w.IsClear c.handle

/-- What is ready reads what the database holds, and changes nothing. -/
theorem beginRead_of_way (hs : c.memory.isLogging = true ∨ Starts w c) {i : Image}
    (hcontent : w.content c.handle = .database i)
    (hway : if c.memory.isLogging then w.isLogClaimed c.handle.file = false
      else w.IsClear c.handle) :
    ∃ m : Memory, w.beginRead c = ⟨w, c.remember m, .ok (some i)⟩ ∧
      m.isLogging = c.memory.isLogging ∧ m.schema = c.memory.schema := by
  have hlook : ∀ m : Memory, (m.refresh (w.content c.handle)).Recalls (w.content c.handle) →
      ∃ m' : Memory, w.look (c.remember m) = ⟨w, c.remember m', .ok (some i)⟩ ∧
        m'.isLogging = m.isLogging ∧ m'.schema = m.schema := by
    intro m hm
    obtain ⟨-, hschema, -, hlogging, hresult⟩ := Memory.look_spec hm
    refine ⟨((m.refresh (w.content c.handle)).look (w.content c.handle)).1, ?_, ?_, ?_⟩
    · rw [hcontent, Content.seen_database] at hresult
      simp only [look, Connection.remember, hcontent, hresult]
    · rw [hlogging, Memory.refresh_isLogging]
    · rw [hschema, Memory.refresh_schema]
  unfold beginRead
  cases hlogging : c.memory.isLogging with
  | true =>
    rw [if_pos rfl]
    obtain ⟨m, hm, hl, hsch⟩ := hlook c.memory (by simp [Memory.refresh, hlogging, Memory.Recalls])
    exact ⟨m, hm, hl.trans hlogging, hsch⟩
  | false =>
    have hs : Starts w c := hs.resolve_left (by simp [hlogging])
    rw [hlogging] at hway
    have hclear : w.IsClear c.handle := by simpa using hway
    have hclosed := (free_of_not_shared hclear.alone).1
    simp only [Bool.false_eq_true, if_false, hclosed,
      settleUndo_of_isClear hs.sound hs.hosts hclear, settleLog_of_isClear hclear]
    obtain ⟨m, hm, hl, hsch⟩ :=
      hlook { c.memory.refresh (w.content c.handle) with isLogging := false }
        (Memory.refresh_recalls (Memory.refresh_recalls hs.recalls))
    exact ⟨m, hm, hl, hsch.trans (Memory.refresh_schema ..)⟩

theorem beginWrite_of_way (hs : c.memory.isLogging = true ∨ Starts w c) {i : Image}
    (hcontent : w.content c.handle = .database i)
    (hway : if c.memory.isLogging then w.isLogClaimed c.handle.file = false
      else w.IsClear c.handle) :
    ∃ m : Memory, w.beginWrite c false = ⟨w, c.remember m, .ok (some i)⟩ ∧
      m.isLogging = c.memory.isLogging := by
  obtain ⟨m, hread, hlogging, -⟩ := beginRead_of_way hs hcontent hway
  refine ⟨m, ?_, hlogging⟩
  have hhandle : (c.remember m).handle = c.handle := rfl
  have hmemory : (c.remember m).memory = m := rfl
  unfold beginWrite
  simp only [hread, hhandle, hmemory, hlogging]
  cases hl : c.memory.isLogging with
  | true =>
    rw [hl, if_pos rfl] at hway
    simp [hway]
  | false =>
    rw [hl] at hway
    have hclear : w.IsClear c.handle := by simpa using hway
    simp [(free_of_not_shared hclear.alone).2.1]

/-- **What is ready succeeds**, and every entry of the disk stays where it is.  Whoever uses the log
needs no more than the file. -/
theorem putRow_of_isReady (hs : c.memory.isLogging = true ∨ Starts w c) {rows : Table}
    (hrows : w.table? c.handle = some rows) (hready : IsReady w c) (r : Row) :
    (w.putRow c r).result = .ok () ∧
      ∀ x, (w.putRow c r).world.disk.entryAt x = w.disk.entryAt x := by
  obtain ⟨i, hcontent, htable⟩ := content_of_table hrows
  obtain ⟨ready, hunderstand⟩ := understand_of_knows w hready.knows .put
  have hs₁ : (c.remember { c.memory with ready := ready }).memory.isLogging = true ∨
      Starts w (c.remember { c.memory with ready := ready }) :=
    hs.imp_right fun hs => ⟨hs.sound, hs.hosts, hs.recalls⟩
  obtain ⟨m, hwrite, hlogging⟩ := beginWrite_of_way hs₁ hcontent hready.way
  have hrows' : w.rowsOf ((c.remember { c.memory with ready := ready }).remember m) .put (some i) =
      ⟨w, c.remember { m with schema := some (Image.schema (some i)) }, .ok rows⟩ := by
    simp [rowsOf, htable, Connection.remember]
  unfold putRow
  simp only [hunderstand, hwrite, hrows']
  have hlogging' : (c.remember { m with schema := some (Image.schema (some i)) }).memory.isLogging =
      c.memory.isLogging := hlogging
  cases hl : c.memory.isLogging with
  | true =>
    rw [hl] at hlogging'
    simp only [keep, hlogging', if_true]
    exact ⟨trivial, fun x => Disk.entryAt_setContent ..⟩
  | false =>
    rw [hl] at hlogging'
    have hclear : w.IsClear c.handle := by
      have hway := hready.way
      rw [hl] at hway
      simpa using hway
    have hs₁ := hs₁.resolve_left (by simp [Connection.remember, hl])
    have hreads := beginWrite_reads hs₁ false
    rw [hwrite] at hreads
    have hs₂ : Starts w (c.remember { m with schema := some (Image.schema (some i)) }) :=
      ⟨hs₁.sound, hs₁.hosts, hreads.recalls⟩
    obtain ⟨w', hkeep, hentry⟩ := keep_of_isClear hs₂ hlogging' hclear i
      (i.withRows (!(c.remember { m with schema := some (Image.schema (some i)) }).memory.isLogging)
        (rows.put r))
    rw [hkeep]
    exact ⟨rfl, hentry⟩

/-! ## 5. What a change leaves -/

/-- A log that was not in use before a change is not in use after it. -/
theorem isSolid_after (hw : w.IsSound)
    (hchange : w.ChangesOnly (fun x => h.undo = some x) (· = h.file) w')
    (hgone : ∀ u, h.undo = some u → w'.disk.entryAt u = none)
    (hcontent : (w.content h).isEmpty = false) {x : Place} (hx : w.isSolid x = false) :
    w'.isSolid x = false := by
  have hback : ∀ {y e}, w'.disk.entryAt y = some e →
      h.undo ≠ some y ∧ w.disk.entryAt y = some e := by
    intro y e hy
    have hne : h.undo ≠ some y := by
      intro hu
      rw [hgone y hu] at hy
      exact absurd hy (by simp)
    exact ⟨hne, by rw [← hy, hchange.disk.elsewhere hne]⟩
  unfold isSolid followPlace
  cases hfind : w'.disk.find [] x.reverse with
  | error e => rfl
  | ok q =>
    have hfind' : w.disk.find [] x.reverse = .ok q :=
      Disk.find_of_keeps hfind fun y e hy _ => (hback hy).2
    unfold isSolid followPlace at hx
    simp only [hfind'] at hx
    simp only
    cases he : w'.disk.entryAt q with
    | none => rfl
    | some e =>
      obtain ⟨hne, he'⟩ := hback he
      rw [he'] at hx
      cases e with
      | directory | link _ | pipe => exact absurd hx (by simp)
      | file n =>
        simp only at hx ⊢
        by_cases hn : n = h.file
        · subst hn
          rw [World.content] at hcontent
          rw [hcontent] at hx
          exact absurd hx (by simp)
        · have hsame : w'.disk.contentOf n = w.disk.contentOf n :=
            hchange.disk.content_kept hw.tree he' hne hn
          rw [hsame, hx]

/-- The log of a database that is not blank was found not to be in use. -/
theorem settleLog_false (hblank : (w.content h).isBlank = false)
    (hlog : w.settleLog h = (w', .ok false)) :
    w' = w ∧ ∀ l, h.log = some l → w.isSolid l = false := by
  unfold settleLog at hlog
  split at hlog
  · next hnone =>
    cases hlog
    exact ⟨rfl, fun l hl => absurd (hnone.symm.trans hl) (by simp)⟩
  next l hl =>
  split at hlog
  · next hsolid =>
    cases hlog
    refine ⟨rfl, ?_⟩
    intro l' hl'
    obtain rfl : l = l' := Option.some.inj (hl.symm.trans hl')
    simpa using hsolid
  rw [hblank] at hlog
  simp only [Bool.false_eq_true, if_false] at hlog
  split at hlog
  · exact absurd (congrArg Prod.snd hlog) (by simp)
  · split at hlog <;> exact absurd (congrArg Prod.snd hlog) (by simp)

/-- A database that was read without a log has none in use. -/
theorem beginRead_log (hw : w.IsSound) (hh : w.Hosts c.handle)
    (hblank : (w.content c.handle).isBlank = false) {c' : Connection} {seen : Option Image}
    (hread : w.beginRead c = ⟨w', c', .ok seen⟩) (hlogging : c'.memory.isLogging = false) :
    ∀ l, c.handle.log = some l → w'.isSolid l = false := by
  have hlook : ∀ (v : World) (d : Connection),
      (v.look d).connection.memory.isLogging = d.memory.isLogging := fun v d =>
    (Memory.look_isLogging ..).trans (Memory.refresh_isLogging ..)
  unfold beginRead at hread
  split at hread
  · next hl =>
    have hkept := hlook w c
    rw [hread, hl] at hkept
    exact absurd (hkept.symm.trans hlogging) (by simp)
  split at hread
  · exact absurd (congrArg Turn.result hread) (by simp)
  have hundo := settleUndo_tends hw hh
  split at hread
  · exact absurd (congrArg Turn.result hread) (by simp)
  next w₁ heq =>
  rw [heq] at hundo
  simp only at hread
  split at hread
  · exact absurd (congrArg Turn.result hread) (by simp)
  next w₂ isLogging heq₂ =>
  have hkept := hlook w₂ (c.remember { c.memory.refresh (w₁.content c.handle) with
    isLogging := isLogging })
  rw [hread] at hkept
  have hfalse : isLogging = false := hkept.symm.trans hlogging
  subst hfalse
  rw [← hh.content_eq hw hundo.bound] at hblank
  obtain ⟨rfl, hsolid⟩ := settleLog_false hblank heq₂
  have hworld : w₂ = w' := congrArg Turn.world hread
  rw [← hworld]
  exact hsolid

/-- **A change that was kept in the database has cleared its way.** -/
theorem isClear_of_keep (hw : w.IsSound) (hh : w.Hosts c.handle) {j i : Image}
    (hcontent : w.content c.handle = .database j) (hlogging : c.memory.isLogging = false)
    (hlog : ∀ l, c.handle.log = some l → w.isSolid l = false)
    (hok : (w.keep c (some j) i).result = .ok ()) :
    (w.keep c (some j) i).world.IsClear c.handle := by
  unfold keep at hok ⊢
  simp only [hlogging, Option.isSome_some, if_true, Bool.false_eq_true, if_false] at hok ⊢
  have hopen : w.ChangesOnly (fun x => c.handle.undo = some x) (· = c.handle.file)
      (w.openUndo c.handle).1 := openUndo_bounded hw hh fun _ h => h
  split at hok
  · exact absurd hok (by simp)
  next w₁ heq =>
  rw [heq] at hopen
  split at hok
  · exact absurd hok (by simp)
  next hshared =>
  simp only [if_neg hshared]
  have hh₁ : w₁.Hosts c.handle :=
    hh.after (hopen.mono (fun _ => .inl) fun _ h => h)
  have hset : w₁.ChangesOnly (fun x => c.handle.undo = some x) (· = c.handle.file)
      (w₁.setImage c.handle i) := ⟨.setContent hopen.disk.tree _ (.inl rfl), rfl⟩
  have hw₁ := hopen.sound hw
  have hw₂ := hset.sound hw₁
  have hh₂ : (w₁.setImage c.handle i).Hosts c.handle :=
    hh₁.after (hset.mono (fun _ => .inl) fun _ h => h)
  have hdrop : (w₁.setImage c.handle i).ChangesOnly (fun x => c.handle.undo = some x)
      (· = c.handle.file) ((w₁.setImage c.handle i).dropUndo c.handle) :=
    dropUndo_bounded hw₂ hh₂ fun _ h => h
  have hchange := (hopen.trans hset).trans hdrop
  have hgone : ∀ u, c.handle.undo = some u →
      ((w₁.setImage c.handle i).dropUndo c.handle).disk.entryAt u = none := by
    intro u hu
    have hentry : (w₁.setImage c.handle i).disk.entryAt u ≠ some .directory := by
      rw [setImage, withDisk, Disk.entryAt_setContent]
      exact (openUndo_after hw hh hu heq).1
    rw [dropUndo_of_some hu, entryAt_unlink hw₂ hh₂ (.inl hu), if_pos ⟨rfl, hentry⟩]
  refine ⟨?_, fun u hu => ⟨hgone u hu, ?_⟩, fun l hl => ?_⟩
  · have htail := hset.trans hdrop
    rw [isShared_eq htail.locks htail.connections]
    simpa using hshared
  · exact (openUndo_leaf hw hh hu heq).2.1
  · refine isSolid_after hw hchange hgone ?_ (hlog l hl)
    rw [hcontent]
    rfl

/-- Keeping a change touches the undo file and the database alone. -/
theorem keep_bounded (hs : Starts w c) (seen : Option Image) (i : Image) :
    w.ChangesOnly (fun x => c.handle.undo = some x) (· = c.handle.file)
      (w.keep c seen i).world := by
  have hset : ∀ {v : World}, v.IsSound → v.ChangesOnly (fun x => c.handle.undo = some x)
      (· = c.handle.file) (v.setImage c.handle i) := fun hv =>
    ⟨.setContent hv.tree _ (.inl rfl), rfl⟩
  unfold keep
  simp only
  split
  · exact hset hs.sound
  have hopen : w.ChangesOnly (fun x => c.handle.undo = some x) (· = c.handle.file)
      (if seen.isSome then w.openUndo c.handle else (w, .ok ())).1 := by
    split
    · exact openUndo_bounded hs.sound hs.hosts fun _ h => h
    · exact .refl hs.sound
  split
  · next w₁ f heq =>
    rw [heq] at hopen
    exact hopen
  next w₁ heq =>
  rw [heq] at hopen
  have hw₁ := hopen.sound hs.sound
  have hh₁ : w₁.Hosts c.handle := hs.hosts.after (hopen.mono (fun _ => .inl) fun _ h => h)
  split
  · exact hopen.trans (dropUndo_bounded hw₁ hh₁ fun _ h => h)
  · have hset₁ := hset hw₁
    exact hopen.trans (hset₁.trans (dropUndo_bounded (hset₁.sound hw₁)
      (hh₁.after (hset₁.mono (fun _ => .inl) fun _ h => h)) fun _ h => h))

/-- The way of a change through a connection that has just read: nobody is about to write to the
log, or no log is in use. -/
theorem beginWrite_way {c' : Connection} {i : Image}
    (hwrite : w.beginWrite c false = ⟨w', c', .ok (some i)⟩) :
    (c'.memory.isLogging = true → w'.isLogClaimed c'.handle.file = false) ∧
      (c'.memory.isLogging = false → w.IsSound → w.Hosts c.handle →
        (w.content c.handle).isBlank = false →
          ∀ l, c.handle.log = some l → w'.isSolid l = false) := by
  unfold beginWrite at hwrite
  split at hwrite
  · exact absurd (congrArg Turn.result hwrite) (by simp)
  next w₁ c₁ seen hread =>
  simp only at hwrite
  split at hwrite
  · next hlogging =>
    split at hwrite
    · exact absurd (congrArg Turn.result hwrite) (by simp)
    · next hclaimed =>
      cases hwrite
      exact ⟨fun _ => by simpa using hclaimed, fun hl => absurd (hl.symm.trans hlogging) (by simp)⟩
  next hlogging =>
  have hlogging' : c₁.memory.isLogging = false := by simpa using hlogging
  split at hwrite
  · exact absurd (congrArg Turn.result hwrite) (by simp)
  split at hwrite
  · cases hwrite
    exact ⟨fun hl => absurd hl hlogging, fun _ hw hh hblank =>
      beginRead_log hw hh hblank hread hlogging'⟩
  · next hsome =>
    split at hwrite
    · exact absurd (congrArg Turn.result hwrite) (by simp)
    · have hseen : seen = some i := Except.ok.inj (congrArg Turn.result hwrite)
      rw [hseen] at hsome
      exact absurd rfl hsome

/-- The steps of a change that was kept: it has looked at the rows, and found a way. -/
theorem putRow_steps (hs : Starts w c) {r : Row} (hok : (w.putRow c r).result = .ok ()) :
    ∃ (w' : World) (c' : Connection) (i : Image) (rows : Table),
      Looks w c (⟨w', c', .ok ()⟩ : Turn Unit) ∧ w'.content c'.handle = .database i ∧
        (if c'.memory.isLogging then w'.isLogClaimed c'.handle.file = false
          else ∀ l, c'.handle.log = some l → w'.isSolid l = false) ∧
        w.putRow c r =
          w'.keep c' (some i) (i.withRows (!c'.memory.isLogging) (rows.put r)) := by
  have hunderstand := understand_looks hs .put
  unfold putRow at hok ⊢
  split at hok
  · exact absurd hok (by simp)
  next w₁ c₁ heq =>
  rw [heq] at hunderstand
  have hs₁ : Starts w₁ c₁ := hunderstand.starts hs
  have hreads := beginWrite_reads hs₁ false
  split at hok
  · exact absurd hok (by simp)
  next w₂ c₂ seen heq₂ =>
  rw [heq₂] at hreads
  have hs₂ : Starts w₂ c₂ := hreads.toLooks.starts hs₁
  have hlooks := hunderstand.trans hs hreads.toLooks
  have hrows := rowsOf_looks hs₂ .put seen
  split at hok
  · next w₃ c₃ rows i heq₃ =>
    obtain ⟨rfl, rfl, -⟩ := rowsOf_ok heq₃
    rw [heq₃] at hrows
    have hcontent : w₃.content c₂.handle = .database i := by
      have hseen := Content.eq_image_of_seen (hreads.seen rfl)
      rw [← hreads.toLooks.content hs₁] at hseen
      exact Content.eq_database_of_image hseen.symm
    have hblank : (w₁.content c₁.handle).isBlank = false := by
      rw [← hreads.toLooks.content hs₁]
      simp only [hcontent]
      rfl
    obtain ⟨hlogged, hunlogged⟩ := beginWrite_way heq₂
    have hhandle : c₂.handle = c₁.handle := hreads.handle
    refine ⟨w₃, c₂.remember { c₂.memory with schema := some (Image.schema (some i)) }, i, rows,
      (hlooks.trans hs hrows).ends _, hcontent, ?_, rfl⟩
    split
    · next hl => exact hlogged hl
    · next hl =>
      have hsolid := hunlogged ((Bool.not_eq_true _).mp hl) hs₁.sound hs₁.hosts hblank
      rw [← hhandle] at hsolid
      exact hsolid
  · exact absurd hok (by simp)
  · exact absurd hok (by simp)

/-- **A change that was kept makes ready for the next.** -/
theorem putRow_isReady (hs : Starts w c) {r : Row} (hok : (w.putRow c r).result = .ok ()) :
    IsReady (w.putRow c r).world (w.putRow c r).connection := by
  have hspec := (putRow_spec hs r).2
  rw [hok] at hspec
  obtain ⟨-, -, -, hknows⟩ := hspec
  refine ⟨hknows, ?_⟩
  obtain ⟨w', c', i, rows, hlooks, hcontent, hway, heq⟩ := putRow_steps hs hok
  have hs' : Starts w' c' := hlooks.starts hs
  rw [heq] at hok ⊢
  have hseen : (w'.content c'.handle).seen = .ok (some i) := by
    rw [hcontent, Content.seen_database]
  have hkept := (keep_spec hs' hseen (i.withRows (!c'.memory.isLogging) (rows.put r))).2
  rw [hok] at hkept
  have hbound := keep_bounded hs' (some i) (i.withRows (!c'.memory.isLogging) (rows.put r))
  rw [hkept.2]
  have hlogging : (c'.remember (c'.memory.wrote (i.withRows (!c'.memory.isLogging)
      (rows.put r)))).memory.isLogging = c'.memory.isLogging := rfl
  rw [hlogging]
  cases hl : c'.memory.isLogging with
  | true =>
    rw [hl, if_pos rfl] at hway
    rw [if_pos rfl, isLogClaimed, hl.symm, hbound.locks]
    exact hway
  | false =>
    rw [hl, if_neg (by simp)] at hway
    rw [hl] at hok
    rw [if_neg (by simp)]
    exact isClear_of_keep hs'.sound hs'.hosts hcontent hl hway hok

/-- A change that was kept has removed no entry but that of an undo file. -/
theorem keep_kept (hs : Starts w c) {j i : Image} (hok : (w.keep c (some j) i).result = .ok ())
    {x : Place} {e : Entry} (hx : c.handle.undo = some x → ∃ t, e = .link t)
    (he : w.disk.entryAt x = some e) : (w.keep c (some j) i).world.disk.entryAt x = some e := by
  by_cases hu : c.handle.undo = some x
  · obtain ⟨t, rfl⟩ := hx hu
    -- A link at the place of the undo file stops every change that does not go to the log.
    unfold keep at hok ⊢
    simp only [Option.isSome_some, if_true] at hok ⊢
    split
    · exact (Disk.entryAt_setContent ..).trans he
    · next hlogging =>
      rw [if_neg hlogging] at hok
      split at hok
      · exact absurd hok (by simp)
      · next w₁ heq => exact absurd he ((openUndo_leaf hs.sound hs.hosts hu heq).2.2.2 t)
  · rw [(keep_bounded hs _ _).disk.elsewhere hu, he]

theorem putRow_kept (hs : Starts w c) {r : Row} (hok : (w.putRow c r).result = .ok ())
    {x : Place} {e : Entry} (hx : c.handle.undo = some x → ∃ t, e = .link t)
    (he : w.disk.entryAt x = some e) : (w.putRow c r).world.disk.entryAt x = some e := by
  obtain ⟨w', c', i, rows, hlooks, hcontent, -, heq⟩ := putRow_steps hs hok
  have hblank : (w.content c.handle).isBlank = false := by
    rw [← hlooks.content hs, hcontent]
    rfl
  have hhandle : c'.handle = c.handle := hlooks.handle
  rw [heq] at hok ⊢
  exact keep_kept (hlooks.starts hs) hok (hhandle.symm ▸ hx) (hlooks.world.kept hblank hx he)

end World

end CompileJournal
