import CompileJournal.Proofs.Journal.Answers
import CompileJournal.Proofs.Journal.Frames

/-!
# What is left beside a database

An access takes what lies under the names of the undo file and the log of a database for its own,
whoever has put it there, so no access can be said to leave these places alone.  But what it leaves
there is told by what it found: the undo file and the log are as they were or gone, the index of the
log comes only where there is a log, and nothing else is touched.  In particular nothing is touched
at all where nothing lies under these names, for the undo file of a change goes with the change.

Making the table is an access like that, and once it has succeeded it adds nothing a second time:
a log that holds something has got its index by then.

* `LeavesBeside`, `makeTable_leavesBeside`: what making the table leaves beside the database;
* `makeTable_untouched`: it leaves no trace if nothing lay there;
* `IsIndexed`, `makeTable_isIndexed`, `makeTable_adds_nothing`: making the table a second time;
* `makeTable_blank`: a new file of which nobody else knows gets its table.
-/

namespace CompileJournal

/-! ## 1. Different names -/

namespace Handle

variable {h : Handle} {x : Place}

/-- Names with different third letters from the end are different. -/
theorem beside_ne {ending ending' : Text} (c c' : Char) (hc : ending.reverse[2]? = some c)
    (hc' : ending'.reverse[2]? = some c') (hne : c ≠ c') (hx : h.beside ending = some x) :
    h.beside ending' ≠ some x := by
  intro hx'
  obtain ⟨name, outer, hplace, rfl⟩ := beside_eq_some hx
  obtain ⟨name', outer', hplace', heq⟩ := beside_eq_some hx'
  have hthird := congrArg (fun t => t.reverse[2]?) (List.cons.inj heq).1
  have hlong : ∀ {t : Text} {d : Char}, t.reverse[2]? = some d → 2 < t.reverse.length :=
    fun h => (List.getElem?_eq_some_iff.mp h).1
  simp only [List.reverse_append, List.getElem?_append_left (hlong hc),
    List.getElem?_append_left (hlong hc'), hc, hc', Option.some.injEq] at hthird
  exact hne hthird

theorem log_ne_of_undo (hx : h.undo = some x) : h.log ≠ some x :=
  beside_ne 'n' 'w' (by decide) (by decide) (by decide) hx

theorem index_ne_of_undo (hx : h.undo = some x) : h.logIndex ≠ some x :=
  beside_ne 'n' 's' (by decide) (by decide) (by decide) hx

theorem index_ne_of_log (hx : h.log = some x) : h.logIndex ≠ some x :=
  beside_ne 'w' 's' (by decide) (by decide) (by decide) hx

end Handle

namespace World

variable {w v : World} {h : Handle} {c : Connection} {x : Place}
  {written : FileNumber → Prop} {α β : Type}

/-! ## 2. Work on the two files -/

theorem settleUndo_bounded (hw : w.IsSound) (hh : w.Hosts h) :
    w.ChangesOnly (fun x => h.undo = some x) written (w.settleUndo h).1 := by
  unfold settleUndo
  split
  · exact .refl hw
  next u hu =>
  have hgone : w.ChangesOnly (fun x => h.undo = some x) written (w.unlink u) :=
    unlink_bounded hw hh (.inl hu) hu
  repeat' split
  all_goals first | exact .refl hw | exact hgone

/-- The undo file that was left behind is where it was, or gone. -/
theorem settleUndo_undo (hw : w.IsSound) (hh : w.Hosts h) (hx : h.undo = some x) :
    (w.settleUndo h).1.disk.entryAt x = w.disk.entryAt x ∨
      (w.settleUndo h).1.disk.entryAt x = none := by
  have hgone : (w.unlink x).disk.entryAt x = w.disk.entryAt x ∨
      (w.unlink x).disk.entryAt x = none := by
    rw [entryAt_unlink hw hh (.inl hx)]
    split
    · exact .inr rfl
    · exact .inl rfl
  unfold settleUndo
  rw [hx]
  simp only
  repeat' split
  all_goals first | exact .inl rfl | exact hgone

/-- There is a log, or something else in its place. -/
def HasLog (w : World) (h : Handle) : Prop := ∃ l, h.log = some l ∧ w.disk.entryAt l ≠ none

/-- What settling the log leaves. -/
inductive SettlesLog (w : World) (h : Handle) : World × Except DatabaseFault Bool → Prop
  /-- The log is not used. -/
  | refused (f : DatabaseFault) : SettlesLog w h (w, .error f)
  | idle (hidle : ∀ l, h.log = some l → w.isSolid l = false) : SettlesLog w h (w, .ok false)
  | dropped {l : Place} (hl : h.log = some l) (hsolid : w.isSolid l = true)
      (hlog : w.disk.entryAt l ≠ some .directory) : SettlesLog w h (w.unlink l, .ok false)
  | used {l i : Place} {n : FileNumber} (hl : h.log = some l) (hsolid : w.isSolid l = true)
      (hlog : w.disk.entryAt l = some (.file n)) (hi : h.logIndex = some i) :
      SettlesLog w h (w.putFile i .undo, .ok true)

theorem settleLog_settles (hw : w.IsSound) (hh : w.Hosts h) : SettlesLog w h (w.settleLog h) := by
  unfold settleLog
  split
  · next hnone => exact .idle fun l hl => absurd hl (by simp [hnone])
  next l hl =>
  obtain ⟨name, outer, rfl, -, houter⟩ := hh.isBeside hw (.inr (.inl hl))
  rw [lookPlace_eq hw houter]
  split
  · next hidle =>
    refine .idle fun l' hl' => ?_
    obtain rfl := Option.some.inj (hl.symm.trans hl')
    simpa using hidle
  next hsolid =>
  have hsolid : w.isSolid (name :: outer) = true := by simpa using hsolid
  split
  · split
    · exact .refused _
    · next hdir => exact .dropped hl hsolid hdir
  split
  · exact .refused _
  split
  · next n i hfile hi => exact .used hl hsolid hfile hi
  · exact .refused _

/-- Nothing is found at a log that is not there. -/
theorem hasLog_of_isSolid (hw : w.IsSound) (hh : w.Hosts h) {l : Place} (hl : h.log = some l)
    (hsolid : w.isSolid l = true) : w.HasLog h := by
  refine ⟨l, hl, fun hnone => ?_⟩
  rw [isSolid_of_none hw hh (.inr (.inl hl)) hnone] at hsolid
  exact absurd hsolid (by simp)

theorem settleLog_bounded (hw : w.IsSound) (hh : w.Hosts h) :
    w.ChangesOnly (fun x => (h.log = some x ∨ h.logIndex = some x) ∧ w.HasLog h) written
      (w.settleLog h).1 := by
  have hsettles := settleLog_settles hw hh
  generalize w.settleLog h = r at hsettles ⊢
  cases hsettles with
  | refused | idle => exact .refl hw
  | dropped hl hsolid =>
    exact unlink_bounded hw hh (.inr (.inl hl)) ⟨.inl hl, hasLog_of_isSolid hw hh hl hsolid⟩
  | used hl hsolid _ hi =>
    exact putFile_bounded hw hh (.inr (.inr hi)) ⟨.inr hi, hasLog_of_isSolid hw hh hl hsolid⟩ .undo

/-- The log is where it was, or gone. -/
theorem settleLog_log (hw : w.IsSound) (hh : w.Hosts h) (hx : h.log = some x) :
    (w.settleLog h).1.disk.entryAt x = w.disk.entryAt x ∨
      (w.settleLog h).1.disk.entryAt x = none := by
  have hsettles := settleLog_settles hw hh
  generalize w.settleLog h = r at hsettles ⊢
  cases hsettles with
  | refused | idle => exact .inl rfl
  | dropped hl =>
    rw [entryAt_unlink hw hh (.inr (.inl hl))]
    split
    · exact .inr rfl
    · exact .inl rfl
  | used _ _ _ hi =>
    refine .inl (((entryAt_putFile hw hh (.inr (.inr hi)) .undo x).resolve_right ?_))
    rintro ⟨rfl, -⟩
    exact Handle.index_ne_of_log hx hi

/-- The index of the log is where it was, or it has come. -/
theorem settleLog_index (hw : w.IsSound) (hh : w.Hosts h) (hx : h.logIndex = some x) :
    (w.settleLog h).1.disk.entryAt x = w.disk.entryAt x ∨
      w.disk.entryAt x = none ∧ ∃ n, (w.settleLog h).1.disk.entryAt x = some (.file n) := by
  have hsettles := settleLog_settles hw hh
  generalize w.settleLog h = r at hsettles ⊢
  cases hsettles with
  | refused | idle => exact .inl rfl
  | dropped hl =>
    refine .inl ?_
    rw [entryAt_unlink hw hh (.inr (.inl hl)), if_neg]
    rintro ⟨rfl, -⟩
    exact Handle.index_ne_of_log hl hx
  | used _ _ _ hi =>
    rcases entryAt_putFile hw hh (.inr (.inr hi)) .undo x with hsame | ⟨rfl, hnone, hfile⟩
    · exact .inl hsame
    · exact .inr ⟨hnone, _, hfile⟩

/-! ## 3. The bound on all that lies there -/

/-- The places that an access touches: that of the undo file, and the two of the log if there is
one. -/
def Touches (w : World) (h : Handle) (x : Place) : Prop :=
  h.undo = some x ∨ (h.log = some x ∨ h.logIndex = some x) ∧ w.HasLog h

theorem Touches.isBeside (hx : w.Touches h x) : h.IsBeside x := hx.imp id And.left

/-- What an access leaves beside a database, but for the place of the undo file. -/
structure LeavesLog (w : World) (h : Handle) (v : World) : Prop where
  bound : w.ChangesOnly (w.Touches h) (· = h.file) v
  log : ∀ {x}, h.log = some x → v.disk.entryAt x = w.disk.entryAt x ∨ v.disk.entryAt x = none
  index : ∀ {x}, h.logIndex = some x → v.disk.entryAt x = w.disk.entryAt x ∨
    w.disk.entryAt x = none ∧ ∃ n, v.disk.entryAt x = some (.file n)

theorem LeavesLog.hasLog (hv : w.LeavesLog h v) (hlog : v.HasLog h) : w.HasLog h := by
  obtain ⟨l, hl, hthere⟩ := hlog
  refine ⟨l, hl, fun hnone => hthere ?_⟩
  rcases hv.log hl with hsame | hgone
  · rw [hsame, hnone]
  · exact hgone

theorem LeavesLog.refl (hw : w.IsSound) : w.LeavesLog h w :=
  ⟨.refl hw, fun _ => .inl rfl, fun _ => .inl rfl⟩

theorem LeavesLog.trans {u : World} (hv : w.LeavesLog h v) (hu : v.LeavesLog h u) :
    w.LeavesLog h u where
  bound := hv.bound.trans (hu.bound.mono (fun _ hx => hx.imp_right (.imp_right hv.hasLog))
    fun _ h => h)
  log hx := by
    rcases hu.log hx with hsame | hgone
    · rw [hsame]
      exact hv.log hx
    · exact .inr hgone
  index {x} hx := by
    rcases hu.index hx with hsame | ⟨hnone, n, hfile⟩
    · rw [hsame]
      exact hv.index hx
    · refine .inr ⟨?_, n, hfile⟩
      rcases hv.index hx with hsame | ⟨hnone', -⟩
      · exact hsame.symm.trans hnone
      · exact hnone'

/-- Only the undo file is touched. -/
theorem leavesLog_of_undo (hb : w.ChangesOnly (fun x => h.undo = some x) (· = h.file) v) :
    w.LeavesLog h v where
  bound := hb.mono (fun _ => .inl) fun _ h => h
  log hx := .inl (hb.disk.elsewhere fun hu => Handle.log_ne_of_undo hu hx)
  index hx := .inl (hb.disk.elsewhere fun hu => Handle.index_ne_of_undo hu hx)

theorem LeavesLog.after (hv : w.LeavesLog h v) (hh : w.Hosts h) : v.Hosts h :=
  hh.after (hv.bound.mono (fun _ => Touches.isBeside) fun _ h => h)

/-- The bound on what lies beside a database is a frame. -/
theorem isFrame_leavesLog (h : Handle) :
    IsFrame h fun w v => w.IsSound → w.Hosts h → w.LeavesLog h v where
  refl _ hw _ := .refl hw
  trans hv hu hw hh :=
    (hv hw hh).trans (hu ((hv hw hh).bound.sound hw) ((hv hw hh).after hh))
  settleUndo _ hw hh := leavesLog_of_undo (settleUndo_bounded hw hh)
  settleLog _ hw hh :=
    ⟨(settleLog_bounded hw hh).mono (fun _ => .inr) fun _ h => h, settleLog_log hw hh,
      settleLog_index hw hh⟩
  openUndo _ hw hh := leavesLog_of_undo (openUndo_bounded hw hh fun _ h => h)
  dropUndo _ hw hh := leavesLog_of_undo (dropUndo_bounded hw hh fun _ h => h)

theorem setImage_leavesLog (hw : w.IsSound) (i : Image) : w.LeavesLog h (w.setImage h i) :=
  leavesLog_of_undo ⟨.setContent hw.tree _ (.inl rfl), rfl⟩

/-! ## 4. The undo file of a change -/

/-- What lies at the place of the undo file is what lay there, or nothing. -/
def LeavesUndo (w : World) (h : Handle) (v : World) : Prop :=
  ∀ x, h.undo = some x → v.disk.entryAt x = w.disk.entryAt x ∨ v.disk.entryAt x = none

theorem LeavesUndo.refl (w : World) : w.LeavesUndo h w := fun _ _ => .inl rfl

theorem LeavesUndo.trans {u : World} (hv : w.LeavesUndo h v) (hu : v.LeavesUndo h u) :
    w.LeavesUndo h u := by
  intro x hx
  rcases hu x hx with hsame | hgone
  · rw [hsame]
    exact hv x hx
  · exact .inr hgone

/-- Whoever reads leaves at the place of the undo file what lay there, or nothing. -/
theorem isReadFrame_leavesUndo (h : Handle) : IsReadFrame (·.handle = h) fun w v =>
    w.IsSound → w.Hosts h → w.LeavesLog h v ∧ w.LeavesUndo h v := by
  have hframe := isFrame_leavesLog h
  refine isReadFrame_of_settles (fun w hw hh => ⟨.refl hw, .refl w⟩)
    (fun {w v u} hv hu hw hh => ?_) (fun w hw hh => ?_) fun w hw hh => ?_
  · obtain ⟨hlog, hundo⟩ := hv hw hh
    obtain ⟨hlog', hundo'⟩ := hu (hlog.bound.sound hw) (hlog.after hh)
    exact ⟨hlog.trans hlog', hundo.trans hundo'⟩
  · exact ⟨hframe.settleUndo w hw hh, fun x => settleUndo_undo hw hh⟩
  · refine ⟨hframe.settleLog w hw hh, fun x hx => .inl ?_⟩
    have hbound : w.ChangesOnly _ (fun _ => False) (w.settleLog h).1 := settleLog_bounded hw hh
    refine hbound.disk.elsewhere ?_
    exact fun ⟨hlog, _⟩ => hlog.elim (Handle.log_ne_of_undo hx) (Handle.index_ne_of_undo hx)

/-- An undo file that cannot be opened is left alone. -/
theorem openUndo_error {f : DatabaseFault} (hopen : w.openUndo h = (v, .error f)) : v = w := by
  unfold openUndo at hopen
  repeat' split at hopen
  all_goals first
    | exact (congrArg Prod.fst hopen).symm
    | exact absurd (congrArg Prod.snd hopen) (by simp)

/-- The undo file is removed, unless it is a directory. -/
theorem dropUndo_undo (hw : w.IsSound) (hh : w.Hosts h) (hx : h.undo = some x) :
    (w.dropUndo h).disk.entryAt x =
      if w.disk.entryAt x = some .directory then some .directory else none := by
  rw [dropUndo_of_some hx, entryAt_unlink hw hh (.inl hx)]
  by_cases hdir : w.disk.entryAt x = some .directory
  · rw [if_neg (by simp [hdir]), if_pos hdir, hdir]
  · rw [if_pos ⟨rfl, hdir⟩, if_neg hdir]

/-- What has begun since `w₀`, perhaps a change, leaves at the place of the undo file what lay there,
or nothing, unless the undo file was opened because the database is blank. -/
def HasBegun (w₀ : World) (h : Handle) (t : Turn (Option Image)) : Prop :=
  w₀.LeavesUndo h t.world ∨ t.result = .ok none ∧ t.connection.memory.isLogging = false ∧
    ∀ u, h.undo = some u → t.world.disk.entryAt u ≠ some .directory

/-- A change that is kept, or not kept, has removed its undo file. -/
theorem keep_leavesUndo {w₀ : World} (hw : w.IsSound) (hh : w.Hosts c.handle)
    {seen : Option Image} (hbegun : HasBegun w₀ c.handle ⟨w, c, .ok seen⟩) (i : Image) :
    w₀.LeavesUndo c.handle (w.keep c seen i).world := by
  have hentry : ∀ (u : World) (x : Place),
      (u.setImage c.handle i).disk.entryAt x = u.disk.entryAt x := fun _ _ =>
    Disk.entryAt_setContent ..
  have hopen : w.ChangesOnly c.handle.IsBeside (· = c.handle.file)
      (if seen.isSome then w.openUndo c.handle else (w, .ok ())).1 := by
    split
    · exact openUndo_bounded hw hh fun _ => .inl
    · exact .refl hw
  unfold keep
  simp only
  split
  · next hlogging =>
    have hleaves := hbegun.resolve_right fun h => absurd (h.2.1.symm.trans hlogging) (by simp)
    intro x hx
    rw [hentry]
    exact hleaves x hx
  split
  · next v f heq =>
    -- Only an undo file that is opened now can fail to be opened.
    cases seen with
    | none => exact absurd (congrArg Prod.snd heq) (by simp)
    | some j =>
      rw [openUndo_error heq]
      exact hbegun.resolve_right fun h => absurd h.1 (by simp)
  · next v heq =>
    rw [heq] at hopen
    have hv := hopen.sound hw
    have hh' := hh.after hopen
    have hdir : ∀ x, c.handle.undo = some x → v.disk.entryAt x = some .directory →
        w₀.disk.entryAt x = some .directory := by
      intro x hx hdir
      cases seen with
      | some j => exact absurd hdir (openUndo_after hw hh hx heq).1
      | none =>
        obtain rfl : w = v := congrArg Prod.fst heq
        rcases hbegun with hleaves | ⟨-, -, hleaf⟩
        · rcases hleaves x hx with hsame | hgone
          · rw [← hsame, hdir]
          · rw [hgone] at hdir
            exact absurd hdir (by simp)
        · exact absurd hdir (hleaf x hx)
    have hdrop : ∀ {u : World}, u.IsSound → u.Hosts c.handle →
        (∀ x, u.disk.entryAt x = v.disk.entryAt x) → w₀.LeavesUndo c.handle (u.dropUndo c.handle) := by
      intro u hu hhu hsame x hx
      rw [dropUndo_undo hu hhu hx, hsame]
      split
      · next hthere => exact .inl (hdir x hx hthere).symm
      · exact .inr rfl
    split
    · exact hdrop hv hh' fun _ => rfl
    · have hset := setImage_bounded (h := c.handle) hv i
      exact hdrop (hset.sound hv) (hh'.after hset) (hentry v)

theorem beginWrite_hasBegun (hw : w.IsSound) (hh : w.Hosts c.handle) (closesOff : Bool) :
    HasBegun w c.handle (w.beginWrite c closesOff) := by
  have hread := (isReadFrame_leavesUndo c.handle).beginRead (w := w) rfl
  unfold beginWrite
  split
  · next heq =>
    rw [heq] at hread
    exact .inl (hread.world hw hh).2
  next v d seen heq =>
  rw [heq] at hread
  obtain ⟨hlog, hleaves⟩ := hread.world hw hh
  have hd : d.handle = c.handle := hread.connection
  simp only
  split
  · exact .inl hleaves
  next hlogging =>
  split
  · exact .inl hleaves
  split
  · exact .inl hleaves
  next hnone =>
  split
  · next hopen =>
    rw [openUndo_error hopen]
    exact .inl hleaves
  · next u hopen =>
    rw [hd] at hopen
    refine .inr ⟨by simpa using hnone, by simpa using hlogging, fun x hx => ?_⟩
    exact (openUndo_after (hlog.bound.sound hw) (hlog.after hh) hx hopen).1

/-! ## 5. Making the table -/

/-- What making the table leaves beside the database: what lay there or less, and perhaps the index
of a log. -/
structure LeavesBeside (w : World) (h : Handle) (v : World) : Prop extends LeavesLog w h v where
  undo : w.LeavesUndo h v

/-- **Making the table** leaves beside the database what lay there or less, and perhaps the index of
a log. -/
theorem makeTable_leavesBeside (hw : w.IsSound) (hh : w.Hosts c.handle) :
    w.LeavesBeside c.handle (w.makeTable c).world := by
  have hset : ∀ (v : World) (i : Image), v.IsSound → v.Hosts c.handle →
      v.LeavesLog c.handle (v.setImage c.handle i) := fun _ i hv _ => setImage_leavesLog hv i
  refine ⟨((isFrame_leavesLog c.handle).makeTable hset rfl).world hw hh, ?_⟩
  have hschema := (isReadFrame_leavesUndo c.handle).readSchema (w := w) rfl
  cases hturn : w.readSchema c with
  | mk v d result =>
  rw [hturn] at hschema
  obtain ⟨hlog, hleaves⟩ := hschema.world hw hh
  have hd : d.handle = c.handle := hschema.connection
  have hv := hlog.bound.sound hw
  have hhv : v.Hosts d.handle := hd ▸ hlog.after hh
  cases result with
  | error f =>
    rw [makeTable_of_refused hturn]
    exact hleaves
  | ok s =>
    rw [makeTable_of_read hturn]
    split
    · exact hleaves
    refine hleaves.trans ?_
    have hbegun := beginWrite_hasBegun hv hhv false
    have hwrite := ((isFrame_leavesLog d.handle).beginWrite (w := v) (c := d) rfl false)
    unfold writeTable
    cases hturn' : v.beginWrite d false with
    | mk u e result' =>
    rw [hturn'] at hbegun hwrite
    have he : e.handle = d.handle := hwrite.connection
    have hlog' := hwrite.world hv hhv
    rw [hd] at he hbegun hlog'
    cases result' with
    | error f => exact hbegun.resolve_right fun h => absurd h.1 (by simp)
    | ok seen =>
      have hbegun : HasBegun v e.handle ⟨u, e, .ok seen⟩ := he ▸ hbegun
      have hkeep := keep_leavesUndo (hlog'.bound.sound hv) (he ▸ hlog'.after (hd ▸ hhv)) hbegun
        (Image.withTable seen (some []))
      rw [he] at hkeep
      exact hkeep

/-- **Making the table leaves no trace beside the database** if nothing lay at the places of the undo
file and of the log. -/
theorem makeTable_untouched (hw : w.IsSound) (hh : w.Hosts c.handle)
    (hundo : ∀ u, c.handle.undo = some u → w.disk.entryAt u = none)
    (hlog : ∀ l, c.handle.log = some l → w.disk.entryAt l = none) :
    w.ChangesOnly (fun _ => False) (· = c.handle.file) (w.makeTable c).world := by
  obtain ⟨⟨hbound, -, -⟩, hleaves⟩ := makeTable_leavesBeside hw hh
  have hnone : ¬w.HasLog c.handle := fun ⟨l, hl, hthere⟩ => hthere (hlog l hl)
  have hbound : w.ChangesOnly (fun x => c.handle.undo = some x) (· = c.handle.file)
      (w.makeTable c).world :=
    hbound.mono (fun x hx => hx.resolve_right fun h => hnone h.2) fun _ h => h
  refine ⟨hbound.disk.still (fun x => ?_) fun x n hx => by simp [hundo x hx], hbound.rest⟩
  by_cases hx : c.handle.undo = some x
  · rcases hleaves x hx with hsame | hgone
    · exact hsame
    · rw [hgone, hundo x hx]
  · exact hbound.disk.elsewhere hx

/-! ## 6. Making the table a second time -/

/-- A log that holds something has its index. -/
def IsIndexed (w : World) (h : Handle) : Prop :=
  ∀ l i n, h.log = some l → h.logIndex = some i → w.disk.entryAt l = some (.file n) →
    (w.disk.contentOf n).isEmpty = false → w.disk.entryAt i ≠ none

theorem isSolid_of_file (hw : w.IsSound) {n : FileNumber} (hx : w.disk.entryAt x = some (.file n)) :
    w.isSolid x = !(w.disk.contentOf n).isEmpty := by
  rw [isSolid, followPlace, Disk.find_place hw.tree hx (by simp)]
  simp only [hx]

/-- A file that is put where its name can be written is there. -/
theorem putFile_comes (hw : w.IsSound) (hh : w.Hosts h) (hx : h.IsBeside x)
    (hshort : Text.byteCount (x.headD []) ≤ Disk.maxName) (t : Content) :
    (w.putFile x t).disk.entryAt x ≠ none := by
  cases he : w.disk.entryAt x with
  | some e => simp [putFile_kept hw hh hx t he]
  | none =>
    obtain ⟨name, outer, rfl, -, houter⟩ := hh.isBeside hw hx
    have hplace : w.disk.findLast [] outer.reverse name = .ok (name :: outer) :=
      (Disk.findLast_place hw.tree houter).trans (if_neg (Nat.not_lt.mpr hshort))
    simp only [putFile, lookPlace_eq hw houter, he, hplace, withDisk, Disk.entryAt_addContent,
      Disk.entryAt_set _ (List.cons_ne_nil name outer), if_true]
    simp

/-- The names of a log and of its index are of one length. -/
theorem short_index (hw : w.IsSound) {l i : Place} {e : Entry} (hl : h.log = some l)
    (hi : h.logIndex = some i) (he : w.disk.entryAt l = some e) :
    Text.byteCount (i.headD []) ≤ Disk.maxName := by
  obtain ⟨name, outer, hplace, rfl⟩ := Handle.beside_eq_some hl
  obtain ⟨name', outer', hplace', rfl⟩ := Handle.beside_eq_some hi
  obtain ⟨rfl, -⟩ := List.cons.inj (Option.some.inj (hplace.symm.trans hplace'))
  have hshort := (hw.tree.name he).short
  have hsame : Text.byteCount "-shm" = Text.byteCount "-wal" := by decide
  rw [Text.byteCount_append, ← hsame] at hshort
  rw [List.headD_cons, Text.byteCount_append]
  exact hshort

/-- **A log that is settled has its index.** -/
theorem settleLog_isIndexed (hw : w.IsSound) (hh : w.Hosts h) {isLogging : Bool}
    (hok : (w.settleLog h).2 = .ok isLogging) : (w.settleLog h).1.IsIndexed h := by
  have hsettles := settleLog_settles hw hh
  generalize w.settleLog h = r at hsettles hok ⊢
  intro l' i' n' hl' hi' hfile hheld
  cases hsettles with
  | refused => exact absurd hok (by simp)
  | idle hidle =>
    have hsolid := isSolid_of_file hw hfile
    rw [hidle l' hl', hheld] at hsolid
    exact absurd hsolid (by simp)
  | dropped hl _ hlog =>
    obtain rfl := Option.some.inj (hl.symm.trans hl')
    rw [entryAt_unlink hw hh (.inr (.inl hl)), if_pos ⟨rfl, hlog⟩] at hfile
    exact absurd hfile (by simp)
  | used hl _ hlog hi =>
    obtain rfl := Option.some.inj (hi.symm.trans hi')
    exact putFile_comes hw hh (.inr (.inr hi)) (short_index hw hl hi hlog) .undo

/-- The log stays with its index where only the undo file and the database are touched. -/
theorem IsIndexed.after (hindexed : w.IsIndexed h) (hw : w.IsSound) (hh : w.Hosts h)
    (hb : w.ChangesOnly (fun x => h.undo = some x) (· = h.file) v) : v.IsIndexed h := by
  intro l i n hl hi hfile hheld
  have hlog : h.undo ≠ some l := fun hu => Handle.log_ne_of_undo hu hl
  have hindex : h.undo ≠ some i := fun hu => Handle.index_ne_of_undo hu hi
  rw [hb.disk.elsewhere hlog] at hfile
  have hother : n ≠ h.file := by
    rintro rfl
    obtain ⟨name, outer, hplace, -⟩ := Handle.beside_eq_some hl
    obtain rfl := hw.tree.unique hfile (hh.place hplace)
    exact Handle.not_isBeside hplace (.inr (.inl hl))
  rw [hb.disk.content_kept hw.tree hfile hlog hother] at hheld
  rw [hb.disk.elsewhere hindex]
  exact hindexed l i n hl hi hfile hheld

/-- An index stays with its log. -/
theorem isFrame_isIndexed (h : Handle) : IsFrame h fun w v => w.IsSound → w.Hosts h →
    w.LeavesLog h v ∧ (w.IsIndexed h → v.IsIndexed h) := by
  have hframe := isFrame_leavesLog h
  refine ⟨fun w hw hh => ⟨.refl hw, id⟩, fun {w v u} hv hu hw hh => ?_, fun w hw hh => ?_,
    fun w hw hh => ?_, fun w hw hh => ?_, fun w hw hh => ?_⟩
  · obtain ⟨hlog, hindexed⟩ := hv hw hh
    obtain ⟨hlog', hindexed'⟩ := hu (hlog.bound.sound hw) (hlog.after hh)
    exact ⟨hlog.trans hlog', hindexed' ∘ hindexed⟩
  · exact ⟨hframe.settleUndo w hw hh, fun h => h.after hw hh (settleUndo_bounded hw hh)⟩
  · refine ⟨hframe.settleLog w hw hh, fun hindexed => ?_⟩
    cases hok : (w.settleLog h).2 with
    | ok isLogging => exact settleLog_isIndexed hw hh hok
    | error f =>
      have hsettles := settleLog_settles hw hh
      generalize w.settleLog h = r at hsettles hok ⊢
      cases hsettles with
      | refused => exact hindexed
      | idle | dropped | used => exact absurd hok (by simp)
  · exact ⟨hframe.openUndo w hw hh, fun h =>
      h.after hw hh (openUndo_bounded hw hh fun _ hu => hu)⟩
  · exact ⟨hframe.dropUndo w hw hh, fun h =>
      h.after hw hh (dropUndo_bounded hw hh fun _ hu => hu)⟩

theorem beginRead_isIndexed (hw : w.IsSound) (hh : w.Hosts c.handle)
    (hfresh : c.memory.isLogging = false) {seen : Option Image}
    (hok : (w.beginRead c).result = .ok seen) : (w.beginRead c).world.IsIndexed c.handle := by
  have hundo : w.ChangesOnly c.handle.IsBeside (fun _ => False) (w.settleUndo c.handle).1 :=
    (settleUndo_bounded hw hh).mono (fun _ => .inl) fun _ h => h
  unfold beginRead at hok ⊢
  rw [if_neg (by simp [hfresh])] at hok ⊢
  split
  · next hclosed =>
    rw [if_pos hclosed] at hok
    exact absurd hok (by simp)
  next hopen =>
  rw [if_neg hopen] at hok
  cases hturn : w.settleUndo c.handle with
  | mk v result =>
  rw [hturn] at hundo hok
  cases result with
  | error f => exact absurd hok (by simp)
  | ok u =>
  have hindexed := @settleLog_isIndexed v c.handle (hundo.sound hw) (hh.after hundo)
  cases hturn' : v.settleLog c.handle with
  | mk v' result' =>
  simp only [hturn'] at hindexed hok ⊢
  cases result' with
  | error f => exact absurd hok (by simp)
  | ok isLogging => exact hindexed rfl

theorem IsFrame.writeTable {R : World → World → Prop} (hR : IsFrame h R)
    (hset : ∀ v i, R v (v.setImage h i)) (hc : c.handle = h) (table : Option Table) :
    Spans (·.handle = h) R w (w.writeTable c table) := by
  have hwrite := hR.beginWrite (w := w) hc false
  unfold World.writeTable
  split
  · next heq =>
    rw [heq] at hwrite
    exact hwrite.ends _
  · next heq =>
    rw [heq] at hwrite
    exact hR.reads.after hwrite fun hd => hR.keep hset hd _ _

/-- **A log has its index once the table was made**, or found, by someone who is new. -/
theorem makeTable_isIndexed (hw : w.IsSound) (hh : w.Hosts c.handle)
    (hfresh : c.memory.isLogging = false) (hok : (w.makeTable c).result = .ok ()) :
    (w.makeTable c).world.IsIndexed c.handle := by
  have hread := ((isFrame_isIndexed c.handle).reads.readSchema (w := w) (c := c) rfl)
  have hschema : ∀ s, (w.readSchema c).result = .ok s →
      (w.readSchema c).world.IsIndexed c.handle := by
    intro s hs
    have hindexed := @beginRead_isIndexed w c hw hh hfresh
    unfold readSchema at hs ⊢
    cases hturn : w.beginRead c with
    | mk v d result =>
    simp only [hturn] at hs hindexed ⊢
    cases result with
    | error f => exact absurd hs (by simp)
    | ok seen => exact hindexed rfl
  cases hturn : w.readSchema c with
  | mk v d result =>
  rw [hturn] at hread hschema
  obtain ⟨hlog, -⟩ := hread.world hw hh
  cases result with
  | error f =>
    rw [makeTable_of_refused hturn] at hok
    exact absurd hok (by simp)
  | ok s =>
    rw [makeTable_of_read hturn]
    split
    · exact hschema s rfl
    · have hset : ∀ (v : World) (i : Image), v.IsSound → v.Hosts c.handle →
          v.LeavesLog c.handle (v.setImage c.handle i) ∧
            (v.IsIndexed c.handle → (v.setImage c.handle i).IsIndexed c.handle) := fun v i hv hh =>
        ⟨setImage_leavesLog hv i, fun h => h.after hv hh ⟨.setContent hv.tree _ (.inl rfl), rfl⟩⟩
      exact (((isFrame_isIndexed c.handle).writeTable (w := v) hset hread.connection (some [])).world
        (hlog.bound.sound hw) (hlog.after hh)).2 (hschema s rfl)

/-- Nothing comes to any place. -/
def AddsNothing (w v : World) : Prop := ∀ x, w.disk.entryAt x = none → v.disk.entryAt x = none

theorem settleLog_adds_nothing (hw : w.IsSound) (hh : w.Hosts h) (hindexed : w.IsIndexed h) :
    w.AddsNothing (w.settleLog h).1 := by
  intro x hnone
  have hsettles := settleLog_settles hw hh
  generalize w.settleLog h = r at hsettles ⊢
  cases hsettles with
  | refused | idle => exact hnone
  | dropped hl =>
    rw [entryAt_unlink hw hh (.inr (.inl hl))]
    split
    · rfl
    · exact hnone
  | @used l i n hl hsolid hlog hi =>
    rcases entryAt_putFile hw hh (.inr (.inr hi)) .undo x with hsame | ⟨rfl, -, -⟩
    · rw [hsame, hnone]
    · refine absurd hnone (hindexed l x n hl hi hlog ?_)
      rw [isSolid_of_file hw hlog] at hsolid
      simpa using hsolid

/-- **Whoever reads adds nothing** where the log has its index. -/
theorem isReadFrame_isIndexed (h : Handle) : IsReadFrame (·.handle = h) fun w v =>
    w.IsSound → w.Hosts h → w.IsIndexed h →
      w.LeavesLog h v ∧ v.IsIndexed h ∧ w.AddsNothing v := by
  have hframe := isFrame_isIndexed h
  refine isReadFrame_of_settles (fun w hw hh hindexed => ⟨.refl hw, hindexed, fun _ => id⟩)
    (fun {w v u} hv hu hw hh hindexed => ?_) (fun w hw hh hindexed => ?_)
    fun w hw hh hindexed => ?_
  · obtain ⟨hlog, hindexed', hadds⟩ := hv hw hh hindexed
    obtain ⟨hlog', hindexed'', hadds'⟩ := hu (hlog.bound.sound hw) (hlog.after hh) hindexed'
    exact ⟨hlog.trans hlog', hindexed'', fun x hx => hadds' x (hadds x hx)⟩
  · obtain ⟨hlog, hkeeps⟩ := hframe.settleUndo w hw hh
    refine ⟨hlog, hkeeps hindexed, fun x hnone => ?_⟩
    by_cases hx : h.undo = some x
    · rcases settleUndo_undo hw hh hx with hsame | hgone
      · rw [hsame, hnone]
      · exact hgone
    · have hbound : w.ChangesOnly _ (fun _ => False) (w.settleUndo h).1 :=
        settleUndo_bounded hw hh
      rw [hbound.disk.elsewhere hx, hnone]
  · obtain ⟨hlog, hkeeps⟩ := hframe.settleLog w hw hh
    exact ⟨hlog, hkeeps hindexed, settleLog_adds_nothing hw hh hindexed⟩

/-- **Making the table a second time adds nothing.** -/
theorem makeTable_adds_nothing (hs : Starts w c) (hindexed : w.IsIndexed c.handle) {rows : Table}
    (hrows : w.table? c.handle = some rows) : w.AddsNothing (w.makeTable c).world := by
  have hread := (isReadFrame_isIndexed c.handle).readSchema (w := w) rfl
  cases hturn : w.readSchema c with
  | mk v d result =>
  rw [hturn] at hread
  obtain ⟨-, -, hadds⟩ := hread.world hs.sound hs.hosts hindexed
  cases result with
  | error f =>
    rw [makeTable_of_refused hturn]
    exact hadds
  | ok s =>
    have hthere : s.hasTable = true := by
      rw [(readSchema_ok hs hturn).1, schema_hasTable]
      exact Option.isSome_iff_exists.mpr ⟨rows, hrows⟩
    rw [makeTable_of_read hturn, if_pos hthere]
    exact hadds

/-! ## 7. A new file -/

theorem beginRead_blank (h : Shares w c) (hopen : w.isClosedOff c.handle.file = false)
    (hblank : w.content c.handle = .text []) :
    w.beginRead c = ⟨w, c.remember (c.memory.see (.text [])), .ok none⟩ := by
  rw [beginRead_eq h, hopen, if_neg (by simp), hblank]
  rfl

theorem writeTable_blank (h : Shares w c) (halone : w.isShared c.handle.file = false)
    (hroom : HasRoom c.handle) (hblank : w.content c.handle = .text []) (table : Option Table) :
    (w.writeTable c table).result = .ok () := by
  obtain ⟨hopen, hfree, -⟩ := free_of_not_shared halone
  obtain ⟨v, hundo⟩ : ∃ v, w.openUndo c.handle = (v, .ok ()) := by
    rcases openUndo_blank h.sound h.hosts h.tidy hfree (by rw [hblank]; rfl) with
      ⟨v, hundo, -⟩ | ⟨-, hnoroom⟩
    · exact ⟨v, hundo⟩
    · exact absurd hroom hnoroom
  have hsee := h.agrees.see.1
  have hlogging : (c.memory.see (.text [])).isLogging = false := hblank ▸ hsee.isLogging
  have h₁ : Shares w (c.remember (c.memory.see (.text []))) :=
    h.remember (hblank ▸ hsee)
  have hkeeps := keep_blank h₁ hfree hundo (Image.withTable none table)
  unfold writeTable beginWrite
  rw [beginRead_blank h hopen hblank]
  simp only [Connection.remember] at hkeeps ⊢
  simp only [hlogging, hfree, hundo, Bool.false_eq_true, if_false, Bool.false_and, Bool.or_false,
    Option.isSome_none]
  exact (hkeeps.kept halone).1

/-- **A new file of which nobody else knows gets its table** if there is room for the name of the
undo file. -/
theorem makeTable_blank (h : Shares w c) (halone : w.isShared c.handle.file = false)
    (hroom : HasRoom c.handle) (hblank : w.content c.handle = .text []) :
    (w.makeTable c).result = .ok () := by
  have hopen := (free_of_not_shared halone).1
  have hresult : (w.readSchema c).result = .ok (Image.schema none) := by
    rw [readSchema, beginRead_blank h hopen hblank]
  obtain ⟨hrests, -⟩ := readSchema_shares h
  cases hturn : w.readSchema c with
  | mk v d result =>
  rw [hturn] at hresult hrests
  obtain rfl : v = w := hrests.world
  have hd : d.handle = c.handle := hrests.handle
  obtain rfl : result = .ok (Image.schema none) := hresult
  rw [makeTable_of_read hturn, if_neg (by simp [Image.schema])]
  exact writeTable_blank (hrests.shares h) (hd ▸ halone) (hd ▸ hroom) (hd ▸ hblank) (some [])

end World

end CompileJournal
