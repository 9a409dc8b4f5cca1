import CompileJournal.Proofs.Journal.Access

/-!
# What holds across an access

All that an access does to the world is done by a few operations: the undo file and the log file
are settled, an undo file is opened and dropped, and a change sets the image of the database.  So a
relation between an earlier and a later world that composes, and that holds across each of these
operations, holds across every access, however the access ends.  Such a relation is a *frame*, and
the walk through the accesses is made here once for all frames.

* `IsReadFrame`, `IsReadFrame.readRows`: what holds across statements that read;
* `IsFrame`, `IsFrame.putRow`, `IsFrame.makeTable`: what holds across those that write, too;
* `isReadFrame_settled`, `isReadFrame_logging`: who reads without touching anything;
* `isFrame_near`: nothing changes but under the names of the files beside the database;
* `isFrame_bounded`: nor does anything change elsewhere, if the database lies where it was opened;
* `Carries`, `Leaves`, `isFrame_leaves`: the file of a handle keeps what it holds, even if it does
  not lie where it was opened any more.
-/

namespace CompileJournal.World

variable {w w' : World} {c : Connection} {h : Handle} {P : Connection → Prop}
  {R : World → World → Prop} {α β : Type}

/-! ## 1. Accesses that read -/

/-- A turn across which a relation between worlds holds, and what is said of the connection. -/
structure Spans (P : Connection → Prop) (R : World → World → Prop) (w : World) (t : Turn α) :
    Prop where
  world : R w t.world
  connection : P t.connection

theorem Spans.ends {t : Turn α} (ht : Spans P R w t) (r : Except DatabaseFault β) :
    Spans P R w ⟨t.world, t.connection, r⟩ := ⟨ht.world, ht.connection⟩

/-- A relation between an earlier and a later world that holds whenever one of certain connections
begins to read. -/
structure IsReadFrame (P : Connection → Prop) (R : World → World → Prop) : Prop where
  refl : ∀ w, R w w
  trans : ∀ {w v u}, R w v → R v u → R w u
  remember : ∀ {c m}, P c → m.isLogging = c.memory.isLogging → P (c.remember m)
  beginRead : ∀ {w c}, P c → Spans P R w (w.beginRead c)

namespace IsReadFrame

variable (hR : IsReadFrame P R)
include hR

theorem stays (hc : P c) (r : Except DatabaseFault α) : Spans P R w ⟨w, c, r⟩ := ⟨hR.refl w, hc⟩

theorem after {t : Turn α} {t' : Turn β} (ht : Spans P R w t)
    (ht' : P t.connection → Spans P R t.world t') : Spans P R w t' :=
  ⟨hR.trans ht.world (ht' ht.connection).world, (ht' ht.connection).connection⟩

theorem readSchema (hc : P c) : Spans P R w (w.readSchema c) := by
  have hread := hR.beginRead (w := w) hc
  unfold World.readSchema
  split
  · next heq =>
    rw [heq] at hread
    exact hread.ends _
  · next heq =>
    rw [heq] at hread
    exact ⟨hread.world, hR.remember hread.connection rfl⟩

theorem learnFrom (hc : P c) (q : Query) (s : Schema) : Spans P R w (w.learnFrom c q s) := by
  unfold World.learnFrom
  split
  · exact ⟨hR.refl w, hR.remember hc (Memory.learn_isLogging _ _)⟩
  · exact hR.stays hc _

theorem learnAnew (hc : P c) (q : Query) : Spans P R w (w.learnAnew c q) := by
  have hschema := hR.readSchema (w := w) hc
  unfold World.learnAnew
  split
  · next heq =>
    rw [heq] at hschema
    exact hschema.ends _
  · next heq =>
    rw [heq] at hschema
    exact hR.after hschema fun hd => hR.learnFrom hd q _

theorem understand (hc : P c) (q : Query) : Spans P R w (w.understand c q) := by
  have hread := hR.beginRead (w := w) hc
  unfold World.understand
  split
  · exact hR.stays hc _
  split
  · exact hR.learnAnew hc q
  split
  · exact hR.learnFrom hc q _
  split
  · next heq =>
    rw [heq] at hread
    exact hread.ends _
  · next heq =>
    rw [heq] at hread
    split
    · exact hread.ends _
    · exact hR.after hread fun hd => hR.learnAnew hd q

theorem rowsOf (hc : P c) (q : Query) (seen : Option Image) :
    Spans P R w (w.rowsOf c q seen) := by
  unfold World.rowsOf
  split <;> exact ⟨hR.refl w, hR.remember hc rfl⟩

/-- **What holds whenever somebody begins to read holds across a statement that reads.** -/
theorem readRows (hc : P c) (q : Query) : Spans P R w (w.readRows c q) := by
  have hunderstand := hR.understand (w := w) hc q
  unfold World.readRows
  split
  · next heq =>
    rw [heq] at hunderstand
    exact hunderstand.ends _
  next v d heq =>
  rw [heq] at hunderstand
  refine hR.after hunderstand fun hd => ?_
  have hread := hR.beginRead (w := v) hd
  simp only
  split
  · next heq' =>
    rw [heq'] at hread
    exact hread.ends _
  · next heq' =>
    rw [heq'] at hread
    exact hR.after hread fun hd' => hR.rowsOf hd' q _

end IsReadFrame

/-! ## 2. Work on the files beside a database -/

/-- A relation between an earlier and a later world that holds across the work on the files beside
the database of a handle. -/
structure IsFrame (h : Handle) (R : World → World → Prop) : Prop where
  refl : ∀ w, R w w
  trans : ∀ {w v u}, R w v → R v u → R w u
  settleUndo : ∀ w, R w (w.settleUndo h).1
  settleLog : ∀ w, R w (w.settleLog h).1
  openUndo : ∀ w, R w (w.openUndo h).1
  dropUndo : ∀ w, R w (w.dropUndo h)

/-- A relation that holds across settling the two files holds whenever somebody begins to read. -/
theorem isReadFrame_of_settles (hrefl : ∀ w, R w w) (htrans : ∀ {w v u}, R w v → R v u → R w u)
    (hundo : ∀ w, R w (w.settleUndo h).1) (hlog : ∀ w, R w (w.settleLog h).1) :
    IsReadFrame (·.handle = h) R where
  refl := hrefl
  trans := htrans
  remember hc _ := hc
  beginRead {w c} hc := by
    subst hc
    have hundo := hundo w
    unfold World.beginRead
    split
    · exact ⟨hrefl w, rfl⟩
    split
    · exact ⟨hrefl w, rfl⟩
    split
    · next heq =>
      rw [heq] at hundo
      exact ⟨hundo, rfl⟩
    next v heq =>
    rw [heq] at hundo
    have hlog := hlog v
    simp only
    split
    all_goals
      next heq' =>
      rw [heq'] at hlog
      exact ⟨htrans hundo hlog, rfl⟩

namespace IsFrame

variable (hR : IsFrame h R)
include hR

theorem reads : IsReadFrame (·.handle = h) R :=
  isReadFrame_of_settles hR.refl hR.trans hR.settleUndo hR.settleLog

theorem beginWrite (hc : c.handle = h) (closesOff : Bool) :
    Spans (·.handle = h) R w (w.beginWrite c closesOff) := by
  have hread := hR.reads.beginRead (w := w) hc
  unfold World.beginWrite
  split
  · next heq =>
    rw [heq] at hread
    exact hread.ends _
  next v d seen heq =>
  rw [heq] at hread
  have hd : d.handle = h := hread.connection
  have hopen := hR.openUndo v
  rw [← hd] at hopen
  simp only
  split
  · exact hread.ends _
  split
  · exact hread.ends _
  split
  · exact hread.ends _
  split
  all_goals
    next heq' =>
    rw [heq'] at hopen
    exact ⟨hR.trans hread.world hopen, hd⟩

theorem giveUp (hc : c.handle = h) (seen : Option Image) : R w (w.giveUp c seen) := by
  unfold World.giveUp
  split
  · rw [hc]
    exact hR.dropUndo w
  · exact hR.refl w

/-! ## 3. Statements that write -/

variable (hset : ∀ v i, R v (v.setImage h i))
include hset

theorem keep (hc : c.handle = h) (seen : Option Image) (i : Image) :
    Spans (·.handle = h) R w (w.keep c seen i) := by
  subst hc
  have hopen : R w (if seen.isSome then w.openUndo c.handle else (w, .ok ())).1 := by
    split
    · exact hR.openUndo w
    · exact hR.refl w
  unfold World.keep
  simp only
  split
  · exact ⟨hset w i, rfl⟩
  split
  · next heq =>
    rw [heq] at hopen
    exact ⟨hopen, rfl⟩
  next v heq =>
  rw [heq] at hopen
  split
  · exact ⟨hR.trans hopen (hR.dropUndo v), rfl⟩
  · exact ⟨hR.trans (hR.trans hopen (hset v i)) (hR.dropUndo _), rfl⟩

/-- **A frame that allows for the image holds across a row that is put**, or not put. -/
theorem putRow (hc : c.handle = h) (r : Row) : Spans (·.handle = h) R w (w.putRow c r) := by
  have hunderstand := hR.reads.understand (w := w) hc .put
  unfold World.putRow
  split
  · next heq =>
    rw [heq] at hunderstand
    exact hunderstand.ends _
  next v d heq =>
  rw [heq] at hunderstand
  refine hR.reads.after hunderstand fun hd => ?_
  have hwrite := hR.beginWrite (w := v) hd false
  simp only
  split
  · next heq' =>
    rw [heq'] at hwrite
    exact hwrite.ends _
  next v' d' seen heq' =>
  rw [heq'] at hwrite
  refine hR.reads.after hwrite fun hd' => ?_
  have hrows := hR.reads.rowsOf (w := v') hd' .put seen
  simp only
  split
  · next heq'' =>
    rw [heq''] at hrows
    exact hR.reads.after hrows fun hd'' => hR.keep hset hd'' _ _
  · next heq'' =>
    rw [heq''] at hrows
    exact ⟨hR.trans hrows.world (hR.giveUp hrows.connection _), hrows.connection⟩
  · next heq'' =>
    rw [heq''] at hrows
    exact hrows.ends _

theorem makeTable (hc : c.handle = h) : Spans (·.handle = h) R w (w.makeTable c) := by
  have hschema := hR.reads.readSchema (w := w) hc
  unfold World.makeTable
  split
  · next heq =>
    rw [heq] at hschema
    exact hschema.ends _
  next v d s heq =>
  rw [heq] at hschema
  split
  · exact hschema.ends _
  refine hR.reads.after hschema fun hd => ?_
  have hwrite := hR.beginWrite (w := v) hd false
  simp only
  split
  · next heq' =>
    rw [heq'] at hwrite
    exact hwrite.ends _
  · next heq' =>
    rw [heq'] at hwrite
    exact hR.reads.after hwrite fun hd' => hR.keep hset hd' _ _

end IsFrame

/-! ## 4. Reading without a trace -/

/-- Nothing was left beside a database that would have to be settled before it is read. -/
def IsSettled (w : World) (h : Handle) : Prop :=
  ∀ x, h.undo = some x ∨ h.log = some x → w.isSolid x = false

theorem settleUndo_of_isSettled (hs : w.IsSettled h) : w.settleUndo h = (w, .ok ()) := by
  unfold settleUndo
  split
  · rfl
  · next u hu => simp [hs u (.inl hu)]

theorem settleLog_of_isSettled (hs : w.IsSettled h) : w.settleLog h = (w, .ok false) := by
  unfold settleLog
  split
  · rfl
  · next l hl => simp [hs l (.inr hl)]

/-- **Nobody who reads touches anything where nothing was left beside the database.** -/
theorem isReadFrame_settled (h : Handle) :
    IsReadFrame (·.handle = h) fun w v => w.IsSettled h → v = w := by
  refine isReadFrame_of_settles (fun _ _ => rfl) (fun hv hu hs => ?_) (fun w hs => ?_)
    fun w hs => ?_
  · obtain rfl := hv hs
    exact hu hs
  · rw [settleUndo_of_isSettled hs]
  · rw [settleLog_of_isSettled hs]

/-- **Whoever uses the log reads without touching anything.** -/
theorem isReadFrame_logging :
    IsReadFrame (·.memory.isLogging = true) fun w v => v = w where
  refl _ := rfl
  trans hv hu := hu.trans hv
  remember hc hm := hm.trans hc
  beginRead {w c} hc := by
    rw [beginRead, if_pos hc]
    exact ⟨rfl, (Memory.look_isLogging _ _).trans ((Memory.refresh_isLogging _ _).trans hc)⟩

/-- **Nobody touches anything while the database is closed off.** -/
theorem isReadFrame_closedOff (h : Handle) :
    IsReadFrame (·.handle = h) fun w v => w.isClosedOff h.file = true → v = w where
  refl _ _ := rfl
  trans hv hu hclosed := by
    obtain rfl := hv hclosed
    exact hu hclosed
  remember hc _ := hc
  beginRead {w c} hc := by
    subst hc
    cases hl : c.memory.isLogging with
    | true =>
      rw [beginRead, if_pos hl]
      exact ⟨fun _ => rfl, rfl⟩
    | false =>
      have hhandle : (w.beginRead c).connection.handle = c.handle :=
        (isReadFrame_settled c.handle).beginRead rfl |>.connection
      refine ⟨fun hclosed => ?_, hhandle⟩
      rw [beginRead, if_neg (by simp [hl]), if_pos hclosed]

/-! ## 5. What lies beside the database -/

/-- Only what lies under the names of the files beside the database changes, wherever its directory
is by now, and the files that may be written. -/
theorem isFrame_near (h : Handle) (written : FileNumber → Prop) :
    IsFrame h fun w v => w.IsSound → h.IsNamed → w.ChangesOnly h.IsNear written v where
  refl _ hw _ := .refl hw
  trans hv hu hw hn := (hv hw hn).trans (hu ((hv hw hn).sound hw) hn)
  settleUndo w hw hn := by
    unfold World.settleUndo
    split
    · exact .refl hw
    next u hu =>
    repeat' split
    all_goals first | exact .refl hw | exact unlink_near hw (.inl hu)
  settleLog w hw hn := by
    unfold World.settleLog
    split
    · exact .refl hw
    next l hl =>
    split
    · exact .refl hw
    split
    · split
      · exact .refl hw
      · exact unlink_near hw (.inr (.inl hl))
    split
    · exact .refl hw
    split
    · next hindex => exact putFile_near hw hn (.inr (.inr hindex)) .undo
    · exact .refl hw
  openUndo w hw hn := by
    unfold World.openUndo
    split
    · exact .refl hw
    next u hu =>
    have hput : w.ChangesOnly h.IsNear written (w.putFile u .undo) := putFile_near hw hn (.inl hu) _
    repeat' split
    all_goals first | exact .refl hw | exact hput
  dropUndo w hw _ := by
    unfold World.dropUndo
    split
    · exact .refl hw
    · next u hu => exact unlink_near hw (.inl hu)

/-- Only what lies beside the database changes, and the files that may be written. -/
theorem isFrame_bounded (h : Handle) (written : FileNumber → Prop) :
    IsFrame h fun w v => w.IsSound → w.Hosts h → w.ChangesOnly h.IsBeside written v where
  refl _ hw _ := .refl hw
  trans hv hu hw hh := (hv hw hh).trans (hu ((hv hw hh).sound hw) (hh.after (hv hw hh)))
  settleUndo _ hw hh := (settleUndo_tends hw hh).bound.mono (fun _ h => h) fun _ h => h.elim
  settleLog _ hw hh := (settleLog_tends hw hh).bound.mono (fun _ h => h) fun _ h => h.elim
  openUndo _ hw hh := openUndo_bounded hw hh fun _ => .inl
  dropUndo _ hw hh := dropUndo_bounded hw hh fun _ => .inl

theorem putRow_near (hw : w.IsSound) (hn : c.handle.IsNamed) (r : Row) :
    w.ChangesOnly c.handle.IsNear (· = c.handle.file) (w.putRow c r).world :=
  ((isFrame_near c.handle (· = c.handle.file)).putRow
    (fun _ _ hw _ => ⟨.setContent hw.tree _ (.inl rfl), rfl⟩) rfl r).world hw hn

theorem makeTable_near (hw : w.IsSound) (hn : c.handle.IsNamed) :
    w.ChangesOnly c.handle.IsNear (· = c.handle.file) (w.makeTable c).world :=
  ((isFrame_near c.handle (· = c.handle.file)).makeTable
    (fun _ _ hw _ => ⟨.setContent hw.tree _ (.inl rfl), rfl⟩) rfl).world hw hn

/-- **A row that is put changes the database and what lies beside it, and nothing else.** -/
theorem putRow_bounded (hw : w.IsSound) (hh : w.Hosts c.handle) (r : Row) :
    w.ChangesOnly c.handle.IsBeside (· = c.handle.file) (w.putRow c r).world :=
  ((isFrame_bounded c.handle _).putRow (fun _ i hw _ => setImage_bounded hw i) rfl r).world hw hh

theorem makeTable_bounded (hw : w.IsSound) (hh : w.Hosts c.handle) :
    w.ChangesOnly c.handle.IsBeside (· = c.handle.file) (w.makeTable c).world :=
  ((isFrame_bounded c.handle _).makeTable (fun _ i hw _ => setImage_bounded hw i) rfl).world hw hh

/-! ## 6. The file of a handle -/

/-- The file of a handle is there, and it lies nowhere under the name of a file beside the
database.  It need not lie where it was opened. -/
structure Carries (w : World) (h : Handle) : Prop where
  number : h.file < w.disk.contents.length
  apart : ∀ {name outer}, h.IsBeside (name :: outer) → ∀ inside,
    w.disk.entryAt (name :: inside) ≠ some (.file h.file)

/-- A file that lies where it was opened lies nowhere else. -/
theorem Hosts.carries (hh : w.Hosts h) (hw : w.IsSound) : w.Carries h where
  number := hh.number
  apart {name outer} hbeside inside hfile := by
    cases hplace : h.place with
    | none => exact Handle.not_isBeside_of_private hplace hbeside
    | some p =>
      obtain rfl := hw.tree.unique hfile (hh.place hplace)
      obtain ⟨base, outer', hplace', hx⟩ : ∃ base outer', h.place = some (base :: outer') ∧
          outer = outer' := by
        rcases hbeside with hx | hx | hx
        all_goals
          obtain ⟨base, outer', hplace', heq⟩ := Handle.beside_eq_some hx
          exact ⟨base, outer', hplace', (List.cons.inj heq).2⟩
      subst hx
      obtain ⟨rfl, rfl⟩ := List.cons.inj (Option.some.inj (hplace.symm.trans hplace'))
      exact Handle.not_isBeside hplace hbeside

/-- A later world in which the file of a handle is still there, and the same connections and
transactions go on. -/
structure Retains (w : World) (h : Handle) (w' : World) : Prop where
  carries : w'.Carries h
  locks : w'.locks = w.locks
  connections : w'.connections = w.connections

/-- A later world in which the file of a handle holds what it held. -/
structure Leaves (w : World) (h : Handle) (w' : World) : Prop extends Retains w h w' where
  content : w'.content h = w.content h

theorem Retains.refl (hh : w.Carries h) : w.Retains h w := ⟨hh, rfl, rfl⟩

theorem Retains.trans {v : World} (hv : w.Retains h v) (hu : v.Retains h w') : w.Retains h w' :=
  ⟨hu.carries, hu.locks.trans hv.locks, hu.connections.trans hv.connections⟩

theorem Leaves.refl (hh : w.Carries h) : w.Leaves h w := ⟨.refl hh, rfl⟩

theorem Leaves.trans {v : World} (hv : w.Leaves h v) (hu : v.Leaves h w') : w.Leaves h w' :=
  ⟨hv.toRetains.trans hu.toRetains, hu.content.trans hv.content⟩

theorem unlink_leaves (hh : w.Carries h) (p : Place) : w.Leaves h (w.unlink p) := by
  have hremoved : ∀ q, w.Leaves h (w.removeAt q) := fun q =>
    ⟨⟨⟨hh.number, fun hbeside inside hfile =>
      hh.apart hbeside inside (Disk.file_of_remove hfile)⟩, rfl, rfl⟩, rfl⟩
  unfold unlink
  split
  · exact .refl hh
  split
  · exact .refl hh
  split
  · exact .refl hh
  · exact hremoved _

/-- The file of a handle is not what lies beside the database, wherever that is by now. -/
theorem Carries.lookPlace_ne (hh : w.Carries h) {p : Place} (hp : h.IsBeside p) :
    w.lookPlace p ≠ some (.file h.file) := by
  intro hlook
  cases p with
  | nil => exact absurd hlook (by simp [lookPlace])
  | cons name outer =>
    rw [lookPlace] at hlook
    split at hlook
    · exact absurd hlook (by simp)
    · next q hq =>
      obtain ⟨inside, -, rfl, -⟩ := findLast_eq_ok hq
      exact hh.apart hp inside hlook

theorem putFile_leaves (hh : w.Carries h) {p : Place} (hp : h.IsBeside p) (c : Content) :
    w.Leaves h (w.putFile p c) := by
  unfold putFile
  split
  · next n hlook =>
    have hne : h.file ≠ n := fun heq => hh.lookPlace_ne hp (heq ▸ hlook)
    refine ⟨⟨⟨?_, fun hbeside inside => ?_⟩, rfl, rfl⟩, Disk.contentOf_setContent_ne _ hne c⟩
    · rw [withDisk, Disk.length_setContent]
      exact hh.number
    · rw [withDisk, Disk.entryAt_setContent]
      exact hh.apart hbeside inside
  · split
    · exact .refl hh
    · refine ⟨⟨⟨?_, fun hbeside inside hfile => ?_⟩, rfl, rfl⟩,
        Disk.contentOf_addContent_of_lt _ hh.number c⟩
      · rw [withDisk, Disk.length_addContent]
        exact Nat.lt_succ_of_lt hh.number
      · rw [withDisk, Disk.entryAt_addContent] at hfile
        rcases Disk.file_of_set hfile with ⟨-, he⟩ | hfile
        · have hnumber := hh.number
          rw [← Entry.file.inj he] at hnumber
          exact absurd hnumber (Nat.lt_irrefl _)
        · exact hh.apart hbeside inside hfile
  · exact .refl hh

/-- **Work on the files beside a database leaves the file of the handle alone.** -/
theorem isFrame_leaves (h : Handle) : IsFrame h fun w v => w.Carries h → w.Leaves h v where
  refl _ hh := .refl hh
  trans hv hu hh := (hv hh).trans (hu (hv hh).carries)
  settleUndo w hh := by
    unfold World.settleUndo
    repeat' split
    all_goals first | exact .refl hh | exact unlink_leaves hh _
  settleLog w hh := by
    unfold World.settleLog
    split
    · exact .refl hh
    split
    · exact .refl hh
    split
    · split
      · exact .refl hh
      · exact unlink_leaves hh _
    split
    · exact .refl hh
    split
    · next hindex => exact putFile_leaves hh (.inr (.inr hindex)) .undo
    · exact .refl hh
  openUndo w hh := by
    unfold World.openUndo
    split
    · exact .refl hh
    · next u hu =>
      have hput := putFile_leaves hh (.inl hu) .undo
      repeat' split
      all_goals first | exact .refl hh | exact hput
  dropUndo w hh := by
    unfold World.dropUndo
    split
    · exact .refl hh
    · exact unlink_leaves hh _

theorem setImage_retains (hh : w.Carries h) (g : Handle) (i : Image) :
    w.Retains h (w.setImage g i) := by
  refine ⟨⟨?_, fun hbeside inside => ?_⟩, rfl, rfl⟩
  · rw [setImage, withDisk, Disk.length_setContent]
    exact hh.number
  · rw [setImage, withDisk, Disk.entryAt_setContent]
    exact hh.apart hbeside inside

end CompileJournal.World
