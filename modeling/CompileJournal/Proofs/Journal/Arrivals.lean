import CompileJournal.Proofs.Journal.Frames
import CompileJournal.Proofs.Journal.Tables
import CompileJournal.Proofs.World.Writing

/-!
# No database comes from elsewhere

The bounds on the changes of a disk say which places a store may touch: those beside its database.
They do not say what comes there, and a place beside one database may well be that of another one.
What comes is a text.  The undo file and the index of the log are texts, a file that was missing is
made as an empty one, an export writes a text; an image is only ever written to the file of a
connection.  So a database that lies somewhere in the end lay there before, unless its file is that
of the connection.

None of this needs the world to be sound, as nothing here depends on where a lookup ends.

* `Disk.BringsNoDatabase`: the relation, which composes;
* `isFrame_brings`, and one lemma for each operation of a store, up to `openAt_brings` and
  `writeText_brings`;
* `tableAt_of_brings`, `tableAt_of_brings_ne`: the rows at a place whose file is not set apart.
-/

namespace CompileJournal

/-! ## 1. Disks -/

namespace Disk

/-- Every database of the later disk was there before, with what it holds, but for the files that
are set apart. -/
structure BringsNoDatabase (apart : FileNumber → Prop) (d d' : Disk) : Prop where
  before : ∀ {x n i}, ¬apart n → d'.entryAt x = some (.file n) → d'.contentOf n = .database i →
    d.entryAt x = some (.file n) ∧ d.contentOf n = .database i

variable {apart : FileNumber → Prop} {d d' d'' : Disk}

namespace BringsNoDatabase

theorem refl (apart : FileNumber → Prop) (d : Disk) : BringsNoDatabase apart d d :=
  ⟨fun _ hx hi => ⟨hx, hi⟩⟩

theorem trans (h : BringsNoDatabase apart d d') (h' : BringsNoDatabase apart d' d'') :
    BringsNoDatabase apart d d'' := by
  constructor
  intro x n i hn hx hi
  obtain ⟨hx', hi'⟩ := h'.before hn hx hi
  exact h.before hn hx' hi'

/-- No place has got another file, and no file another image. -/
theorem of_back (hentry : ∀ {x n}, d'.entryAt x = some (.file n) → d.entryAt x = some (.file n))
    (hcontent : ∀ {n i}, d'.contentOf n = .database i → d.contentOf n = .database i) :
    BringsNoDatabase apart d d' :=
  ⟨fun _ hx hi => ⟨hentry hx, hcontent hi⟩⟩

end BringsNoDatabase

theorem image_of_setContent_text {n m : FileNumber} {t : Text} {i : Image}
    (h : (d.setContent n (.text t)).contentOf m = .database i) : d.contentOf m = .database i := by
  by_cases hmn : m = n
  · subst hmn
    by_cases hlt : m < d.contents.length
    · rw [contentOf_setContent_self d hlt] at h
      exact absurd h (by simp)
    · have hnone : (d.contents.set m (.text t))[m]? = none := by
        rw [List.getElem?_eq_none_iff, List.length_set]
        exact Nat.le_of_not_lt hlt
      rw [contentOf, setContent, hnone] at h
      exact absurd h (by simp)
  · rwa [contentOf_setContent_ne d hmn] at h

theorem image_of_addContent_text {m : FileNumber} {t : Text} {i : Image}
    (h : (d.addContent (.text t)).contentOf m = .database i) :
    m < d.contents.length ∧ d.contentOf m = .database i := by
  by_cases hlt : m < d.contents.length
  · rw [contentOf_addContent_of_lt d hlt] at h
    exact ⟨hlt, h⟩
  · have htext : ∃ s, (d.addContent (.text t)).contentOf m = .text s := by
      rw [contentOf, addContent, List.getElem?_append_right (Nat.le_of_not_lt hlt)]
      cases m - d.contents.length with
      | zero => exact ⟨t, rfl⟩
      | succ k => exact ⟨[], rfl⟩
    obtain ⟨s, hs⟩ := htext
    rw [hs] at h
    exact absurd h (by simp)

namespace BringsNoDatabase

theorem remove (apart : FileNumber → Prop) (d : Disk) (p : Place) :
    BringsNoDatabase apart d (d.remove p) :=
  of_back file_of_remove id

theorem setDirectory (apart : FileNumber → Prop) (d : Disk) (p : Place) :
    BringsNoDatabase apart d (d.set p .directory) := by
  refine of_back (fun {x n} hx => ?_) id
  rcases file_of_set hx with ⟨-, he⟩ | hx
  · exact absurd he (by simp)
  · exact hx

theorem setText (apart : FileNumber → Prop) (d : Disk) (n : FileNumber) (t : Text) :
    BringsNoDatabase apart d (d.setContent n (.text t)) :=
  of_back (fun hx => by rwa [entryAt_setContent] at hx) image_of_setContent_text

/-- The file that is set apart may be written. -/
theorem setContent {n : FileNumber} (hn : apart n) (d : Disk) (c : Content) :
    BringsNoDatabase apart d (d.setContent n c) := by
  constructor
  intro x m i hm hx hi
  have hmn : m ≠ n := fun hmn => hm (hmn ▸ hn)
  rw [entryAt_setContent] at hx
  rw [contentOf_setContent_ne d hmn] at hi
  exact ⟨hx, hi⟩

theorem addText (apart : FileNumber → Prop) (d : Disk) (t : Text) :
    BringsNoDatabase apart d (d.addContent (.text t)) :=
  of_back (fun hx => by rwa [entryAt_addContent] at hx) fun hi => (image_of_addContent_text hi).2

/-- A new file with a text. -/
theorem setFile (apart : FileNumber → Prop) (d : Disk) (p : Place) (t : Text) :
    BringsNoDatabase apart d ((d.set p (.file d.nextNumber)).addContent (.text t)) := by
  constructor
  intro x n i _ hx hi
  obtain ⟨hlt, hi⟩ := image_of_addContent_text hi
  rw [entryAt_addContent] at hx
  rcases file_of_set hx with ⟨-, he⟩ | hx
  · rw [← Entry.file.inj he] at hlt
    exact absurd hlt (Nat.lt_irrefl _)
  · exact ⟨hx, hi⟩

end BringsNoDatabase

end Disk

namespace World

open Disk (BringsNoDatabase)

variable {w w' : World} {c : Connection} {h : Handle} {p : Place} {rows : Table} {α : Type}

/-! ## 2. The files beside a database -/

theorem unlink_brings (apart : FileNumber → Prop) (w : World) (p : Place) :
    w.disk.BringsNoDatabase apart (w.unlink p).disk := by
  unfold unlink
  split
  · exact .refl apart _
  split
  · exact .refl apart _
  split
  · exact .refl apart _
  · exact .remove apart _ _

theorem putFile_brings (apart : FileNumber → Prop) (w : World) (p : Place) (t : Text) :
    w.disk.BringsNoDatabase apart (w.putFile p (.text t)).disk := by
  unfold putFile
  split
  · exact .setText apart _ _ _
  · split
    · exact .refl apart _
    · exact .setFile apart _ _ _
  · exact .refl apart _

theorem settleUndo_brings (apart : FileNumber → Prop) (w : World) (h : Handle) :
    w.disk.BringsNoDatabase apart (w.settleUndo h).1.disk := by
  unfold settleUndo
  repeat' split
  all_goals first | exact .refl apart _ | exact unlink_brings apart _ _

theorem openUndo_brings (apart : FileNumber → Prop) (w : World) (h : Handle) :
    w.disk.BringsNoDatabase apart (w.openUndo h).1.disk := by
  unfold openUndo
  repeat' split
  all_goals first | exact .refl apart _ | exact putFile_brings apart _ _ _

theorem dropUndo_brings (apart : FileNumber → Prop) (w : World) (h : Handle) :
    w.disk.BringsNoDatabase apart (w.dropUndo h).disk := by
  unfold dropUndo
  split
  · exact .refl apart _
  · exact unlink_brings apart _ _

theorem settleLog_brings (apart : FileNumber → Prop) (w : World) (h : Handle) :
    w.disk.BringsNoDatabase apart (w.settleLog h).1.disk := by
  unfold settleLog
  repeat' split
  all_goals first
    | exact .refl apart _ | exact unlink_brings apart _ _ | exact putFile_brings apart _ _ _

theorem releaseLog_brings (apart : FileNumber → Prop) (w : World) (c : Connection) :
    w.disk.BringsNoDatabase apart (w.releaseLog c).disk := by
  unfold releaseLog
  repeat' split
  · exact (unlink_brings apart _ _).trans (unlink_brings apart _ _)
  · exact .refl apart _
  · exact .refl apart _

/-! ## 3. Statements -/

/-- **The work on the files beside a database brings no database.** -/
theorem isFrame_brings (apart : FileNumber → Prop) (h : Handle) :
    IsFrame h fun w v => w.disk.BringsNoDatabase apart v.disk where
  refl _ := .refl apart _
  trans := .trans
  settleUndo w := settleUndo_brings apart w h
  settleLog w := settleLog_brings apart w h
  openUndo w := openUndo_brings apart w h
  dropUndo w := dropUndo_brings apart w h

theorem readRows_brings (apart : FileNumber → Prop) (w : World) (c : Connection) (q : Query) :
    w.disk.BringsNoDatabase apart (w.readRows c q).world.disk :=
  ((isFrame_brings apart c.handle).reads.readRows rfl q).world

/-- Only the file of the connection gets an image. -/
theorem setImage_brings (w : World) (h : Handle) (i : Image) :
    w.disk.BringsNoDatabase (· = h.file) (w.setImage h i).disk :=
  .setContent (by exact rfl) w.disk _

/-- **A row that is put brings no database** to any place. -/
theorem putRow_brings (w : World) (c : Connection) (r : Row) :
    w.disk.BringsNoDatabase (· = c.handle.file) (w.putRow c r).world.disk :=
  ((isFrame_brings _ c.handle).putRow (fun w i => setImage_brings w _ i) rfl r).world

theorem makeTable_brings (w : World) (c : Connection) :
    w.disk.BringsNoDatabase (· = c.handle.file) (w.makeTable c).world.disk :=
  ((isFrame_brings _ c.handle).makeTable (fun w i => setImage_brings w _ i) rfl).world

/-! ## 4. Opening -/

theorem makeEntryAt_brings (apart : FileNumber → Prop) {path : Text}
    (h : w.makeEntryAt path .directory = .ok (w', p)) :
    w.disk.BringsNoDatabase apart w'.disk := by
  unfold makeEntryAt at h
  split at h
  · exact absurd h (by simp)
  split at h
  · exact absurd h (by simp)
  split at h
  · exact absurd h (by simp)
  split at h
  · exact absurd h (by simp)
  split at h
  · obtain ⟨rfl, -⟩ := Prod.mk.inj (Except.ok.inj h)
    exact .setDirectory apart _ _
  · exact absurd h (by simp)

theorem ensureDirectory_brings (apart : FileNumber → Prop) (w : World) (path : Text) :
    w.disk.BringsNoDatabase apart (w.ensureDirectory path).1.disk := by
  unfold ensureDirectory
  split
  · next hmake => exact makeEntryAt_brings apart hmake
  · split <;> exact .refl apart _
  · exact .refl apart _

theorem ensureInside_brings (apart : FileNumber → Prop) (w : World) (p : Place) (name : Name)
    (path : Text) : w.disk.BringsNoDatabase apart (w.ensureInside p name path).1.disk := by
  unfold ensureInside
  split
  · exact .refl apart _
  split
  · exact .refl apart _
  · exact .setDirectory apart _ _

theorem makeMissing_brings (apart : FileNumber → Prop) (doubled : Bool) (inner : List Name)
    (w : World) : w.disk.BringsNoDatabase apart (makeMissing doubled inner w).1.disk := by
  induction inner with
  | nil => exact ensureDirectory_brings apart w _
  | cons name outer ih =>
    simp only [makeMissing]
    split
    · exact ensureDirectory_brings apart w _
    · split
      · next heq =>
        rw [heq] at ih
        exact ih.trans (ensureInside_brings apart _ _ _ _)
      · next heq =>
        rw [heq] at ih
        exact ih.trans (ensureDirectory_brings apart _ _)
      · next heq =>
        rw [heq] at ih
        exact ih.trans (ensureDirectory_brings apart _ _)
      · next heq =>
        rw [heq] at ih
        exact ih

theorem makeDirectories_brings (apart : FileNumber → Prop) (doubled : Bool) (inner : List Name)
    (w : World) : w.disk.BringsNoDatabase apart (makeDirectories doubled inner w).1.disk := by
  unfold makeDirectories
  split
  · exact .refl apart _
  · exact makeMissing_brings apart doubled inner w

theorem connect_brings (apart : FileNumber → Prop) {path : Text}
    (h : w.connect path = .ok (w', c)) : w.disk.BringsNoDatabase apart w'.disk := by
  unfold connect at h
  split at h
  · obtain ⟨rfl, -⟩ := Prod.mk.inj (Except.ok.inj h)
    exact .addText apart _ _
  split at h
  · exact absurd h (by simp)
  split at h
  · exact absurd h (by simp)
  next p hp =>
  unfold connectAt at h
  split at h
  · exact absurd h (by simp)
  split at h
  · exact absurd h (by simp)
  split at h
  · exact absurd h (by simp)
  split at h
  · obtain ⟨rfl, -⟩ := Prod.mk.inj (Except.ok.inj h)
    exact .setFile apart _ _ _
  · obtain ⟨rfl, -⟩ := Prod.mk.inj (Except.ok.inj h)
    exact .refl apart _
  · exact absurd h (by simp)
  · exact absurd h (by simp)

/-- The file of a private database lies nowhere. -/
theorem Connects.alone {path : Text} (hc : w.Connects path w' c) (hw : w.IsSound)
    (hnone : c.handle.place = none) (x : Place) :
    w'.disk.entryAt x ≠ some (.file c.handle.file) := by
  intro hx
  obtain ⟨-, hadds⟩ := hc.of_private hnone
  rw [hadds.elsewhere (by simp [hnone])] at hx
  exact absurd (hw.tree.number hx) (by simp [hadds.number])

/-! ## 5. Texts that are written, and rows -/

/-- **A text that is written brings no database**, whatever it is written over. -/
theorem writeText_brings (apart : FileNumber → Prop) {path t : Text}
    (h : w.writeText path t = .ok w') : w.disk.BringsNoDatabase apart w'.disk := by
  have hopened : ∀ {v : World} {n? : Option FileNumber}, w.openForWriting path = .ok (v, n?) →
      w.disk.BringsNoDatabase apart v.disk := by
    intro v n? hopen
    unfold openForWriting at hopen
    split at hopen
    · exact absurd hopen (by simp)
    split at hopen
    · exact absurd hopen (by simp)
    split at hopen
    · exact absurd hopen (by simp)
    split at hopen
    · exact absurd hopen (by simp)
    · obtain ⟨rfl, -⟩ := Prod.mk.inj (Except.ok.inj hopen)
      exact .setFile apart _ _ _
    · split at hopen
      · obtain ⟨rfl, -⟩ := Prod.mk.inj (Except.ok.inj hopen)
        exact .refl apart _
      · obtain ⟨rfl, -⟩ := Prod.mk.inj (Except.ok.inj hopen)
        exact .refl apart _
      · exact absurd hopen (by simp)
  unfold writeText at h
  split at h
  · exact absurd h (by simp)
  · next hopen =>
    obtain rfl := Except.ok.inj h
    exact hopened hopen
  · next hopen =>
    obtain rfl := Except.ok.inj h
    exact (hopened hopen).trans (.setText apart _ _ _)

/-- **The rows at a place were there before**, if its file is not set apart. -/
theorem tableAt_of_brings {apart : FileNumber → Prop} (hw' : w'.IsSound)
    (hb : w.disk.BringsNoDatabase apart w'.disk)
    (ha : ∀ n, w'.disk.entryAt p = some (.file n) → ¬apart n) (hrows : w'.tableAt p = some rows) :
    w.tableAt p = some rows := by
  obtain ⟨n, hh, htable⟩ := hosts_of_tableAt hw' hrows
  have hentry := hh.place rfl
  obtain ⟨i, hi, -⟩ := content_of_table htable
  obtain ⟨hentry', hi'⟩ := hb.before (ha n hentry) hentry hi
  have hcontent : w.content ⟨n, some p⟩ = w'.content ⟨n, some p⟩ := hi'.trans hi.symm
  rw [tableAt, hentry']
  exact (table?_of_content hcontent).trans htable

/-- The same where only the file of one database is set apart, and the place is another one. -/
theorem tableAt_of_brings_ne (hw' : w'.IsSound) (hh : w'.Hosts h)
    (halone : h.place = none → ∀ x, w'.disk.entryAt x ≠ some (.file h.file))
    (hb : w.disk.BringsNoDatabase (· = h.file) w'.disk) (hp : h.place ≠ some p)
    (hrows : w'.tableAt p = some rows) : w.tableAt p = some rows := by
  refine tableAt_of_brings hw' hb ?_ hrows
  rintro n hn rfl
  cases hplace : h.place with
  | none => exact halone hplace p hn
  | some q =>
    obtain rfl := hw'.tree.unique (hh.place hplace) hn
    exact hp hplace

end World

namespace Store

open World (Starts)

variable {w w' : World} {s : Store} {c : Connection} {h : Handle} {p : Place} {rows : Table}

/-! ## 6. Stores -/

theorem put_brings (hc : s.connection? w = some c) (r : Record) :
    w.disk.BringsNoDatabase (· = c.handle.file) (s.put w r).1.disk := by
  have hput : s.put w r = _ := use_eq hc _
  rw [hput]
  exact World.putRow_brings w c _

theorem use_readRows_brings (apart : FileNumber → Prop) (hc : s.connection? w = some c)
    (q : Query) :
    w.disk.BringsNoDatabase apart (s.use w fun w c => w.readRows c q).1.disk := by
  rw [use_eq hc]
  exact World.readRows_brings apart w c q

theorem close_brings (apart : FileNumber → Prop) (w : World) (s : Store) :
    w.disk.BringsNoDatabase apart (s.close w).disk := by
  unfold close
  split
  · exact .refl apart _
  · next c _ => exact World.releaseLog_brings apart (s.setConnection w none) c

theorem withDirectories_brings (apart : FileNumber → Prop) (w : World) (path : Text) :
    w.disk.BringsNoDatabase apart (withDirectories w path).disk := by
  unfold withDirectories
  split
  · exact .refl apart _
  · exact World.makeDirectories_brings apart _ _ w

/-- **Opening a store brings no database** but its own, and a private one lies nowhere. -/
theorem openAt_brings (hw : w.IsSound) (path : Text) (timeout : Binary64) :
    ((openAt w path timeout).1.connections = w.connections ∧
      w.disk.BringsNoDatabase (fun _ => False) (openAt w path timeout).1.disk) ∨
    ∃ c, (openAt w path timeout).1.connections = w.connections ++ [some c] ∧
      w.disk.BringsNoDatabase (· = c.handle.file) (openAt w path timeout).1.disk ∧
      (c.handle.place = none → ∀ x,
        (openAt w path timeout).1.disk.entryAt x ≠ some (.file c.handle.file)) := by
  have hmake := withDirectories_grows hw path
  rcases openAt_cases hw path timeout with ⟨e, heq⟩ | ⟨v, c, ho⟩
  · rw [heq]
    exact .inl ⟨hmake.connections, withDirectories_brings _ w path⟩
  have hattached := ho.attached hw
  have hconnects := ho.connects
  obtain ⟨hwrites, -⟩ := World.makeTable_spec ho.starts
  refine .inr ⟨((attach v c).makeTable c).connection, hattached.connections, ?_, ?_⟩
  · rw [hwrites.handle, ho.world]
    exact ((withDirectories_brings _ w path).trans (World.connect_brings _ ho.connect)).trans
      (World.makeTable_brings (attach v c) c)
  · rw [hwrites.handle]
    intro hnone x hx
    rcases hattached.disk.file hx with hx | hle
    · exact hconnects.alone ho.sound hnone x hx
    · exact absurd hconnects.hosts.number (Nat.not_lt.mpr hle)

end Store

end CompileJournal
