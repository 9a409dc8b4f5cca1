import CompileJournal.Proofs.Journal.Ready

/-!
# Reading a database that nobody else uses

A read can be refused for what lies beside the database: an undo file that cannot be settled, or a
log that cannot be used.  If only files lie there and nobody else uses the database, each of them
can be dealt with, so the read succeeds, and it leaves the database as calm as it was.

* `IsCalm`: nobody else uses the database, and nothing but files lies beside it;
* `beginRead_of_isResting`, `makeTable_of_isResting`, `readRows_of_isResting`: the accesses that
  succeed then;
* `makeTable_error`: where asking for a table that is there fails, no log was taken up.
-/

namespace CompileJournal

namespace World

variable {w w' : World} {h : Handle} {c : Connection} {i : Image} {written : FileNumber → Prop}

/-! ## 1. Calm databases -/

/-- Nothing but files lies where the undo file and the log of a database go. -/
def HasFilesBeside (w : World) (h : Handle) : Prop :=
  ∀ {x e}, h.undo = some x ∨ h.log = some x → w.disk.entryAt x = some e → ∃ n, e = .file n

/-- Nobody else uses the database, and nothing but files lies beside it. -/
structure IsCalm (w : World) (h : Handle) : Prop where
  alone : w.isShared h.file = false
  files : w.HasFilesBeside h

/-- Below the file of a database there is a free place, which does not lie beside it. -/
theorem exists_free (hw : w.IsSound) (hh : w.Hosts h) {x : Place} (hx : h.IsBeside x) :
    ∃ y, w.disk.entryAt y = none ∧ ¬h.IsBeside y := by
  have hplace : ∃ name outer, h.place = some (name :: outer) := by
    rcases hx with hx | hx | hx
    all_goals
      obtain ⟨name, outer, hplace, -⟩ := Handle.beside_eq_some hx
      exact ⟨name, outer, hplace⟩
  obtain ⟨name, outer, hplace⟩ := hplace
  have hentry := hh.place hplace
  have hfree : w.disk.entryAt ([] :: name :: outer) = none :=
    hw.tree.nothing_below (p := name :: outer) (by simp [hentry]) (List.suffix_cons _ _)
      (List.cons_ne_self _ _)
  refine ⟨_, hfree, ?_⟩
  intro hbeside
  have hne : ∀ ending, h.beside ending ≠ some ([] :: name :: outer) := by
    intro ending hbeside
    obtain ⟨name', outer', hplace', heq⟩ := Handle.beside_eq_some hbeside
    rw [hplace, Option.some.injEq, List.cons.injEq] at hplace'
    obtain ⟨rfl, rfl⟩ := hplace'
    exact List.cons_ne_self _ _ (List.cons.inj heq).2
  rcases hbeside with hy | hy | hy
  · exact hne _ hy
  · exact hne _ hy
  · exact hne _ hy

/-- Work beside a database brings nothing but files there. -/
theorem HasFilesBeside.after (hc : w.HasFilesBeside h) (hw : w.IsSound) (hh : w.Hosts h)
    (hb : w.disk.ChangesOnly h.IsBeside written w'.disk) : w'.HasFilesBeside h := by
  intro x e hx he
  have hbeside : h.IsBeside x := hx.imp id .inl
  obtain ⟨y, hfree, hy⟩ := exists_free hw hh hbeside
  by_cases hfile : ∃ n, e = .file n
  · exact hfile
  · exact hc hx (hb.came hfree hy he (not_exists.mp hfile))

/-- Work beside a calm database leaves it calm. -/
theorem IsCalm.after (hc : w.IsCalm h) (hw : w.IsSound) (hh : w.Hosts h)
    (hb : w.ChangesOnly h.IsBeside written w') : w'.IsCalm h :=
  ⟨(isShared_eq hb.locks hb.connections _).trans hc.alone,
    HasFilesBeside.after hc.files hw hh hb.disk⟩

/-! ## 2. What lies beside a calm database -/

theorem settleUndo_of_isCalm (hw : w.IsSound) (hh : w.Hosts h) (hc : w.IsCalm h)
    (hblank : (w.content h).isBlank = false) : (w.settleUndo h).2 = .ok () := by
  unfold settleUndo
  split
  · rfl
  next u hu =>
  obtain ⟨name, outer, rfl, -, houter⟩ := hh.isBeside hw (.inl hu)
  rw [lookPlace_eq hw houter]
  split
  · rfl
  rw [hblank, hh.hasName hw, hc.alone]
  simp only [Bool.false_eq_true, if_false, Bool.not_true]
  cases he : w.disk.entryAt (name :: outer) with
  | none => rfl
  | some e =>
    obtain ⟨n, rfl⟩ := hc.files (.inl hu) he
    simp only
    split <;> rfl

theorem settleLog_of_isCalm (hw : w.IsSound) (hh : w.Hosts h) (hc : w.IsCalm h)
    (hblank : (w.content h).isBlank = false) : ∃ isLogging, (w.settleLog h).2 = .ok isLogging := by
  unfold settleLog
  split
  · exact ⟨false, rfl⟩
  next l hl =>
  split
  · exact ⟨false, rfl⟩
  next hsolid =>
  rw [hblank, hh.hasName hw]
  simp only [Bool.false_eq_true, if_false, Bool.not_true]
  obtain ⟨name, outer, rfl, -, houter⟩ := hh.isBeside hw (.inr (.inl hl))
  rw [lookPlace_eq hw houter]
  cases he : w.disk.entryAt (name :: outer) with
  | none => exact absurd (isSolid_of_none hw hh (.inr (.inl hl)) he) (by simpa using hsolid)
  | some e =>
    obtain ⟨n, rfl⟩ := hc.files (.inr hl) he
    obtain ⟨stem, outer', hplace, -⟩ := Handle.beside_eq_some hl
    have hindex : h.logIndex = some ((stem ++ "-shm".toList) :: outer') := by
      rw [Handle.logIndex, Handle.beside, hplace]
    rw [hindex]
    exact ⟨true, rfl⟩

/-! ## 3. Reading -/

/-- Nothing stands in the way of reading: the connection uses the log already, or the database is
calm. -/
def IsResting (w : World) (c : Connection) : Prop :=
  c.memory.isLogging = false → w.IsCalm c.handle

theorem look_isLogging (hs : Starts w c) :
    (w.look c).connection.memory.isLogging = c.memory.isLogging :=
  (Memory.look_spec (Memory.refresh_recalls hs.recalls)).2.2.2.1.trans
    (Memory.refresh_isLogging ..)

theorem look_of_image (hs : Starts w c) (hcontent : w.content c.handle = .database i) :
    (w.look c).result = .ok (some i) := by
  have hresult := (Memory.look_spec (Memory.refresh_recalls hs.recalls)).2.2.2.2
  rw [hcontent, Content.seen_database] at hresult
  rw [look, hcontent]
  exact hresult

/-- A read leaves a connection that uses the log, or the memory it started with about that. -/
theorem isResting_after {t : Turn (Option Image)} (hs : Starts w c) (hrest : IsResting w c)
    (hreads : Looks w c t) (hlogging : c.memory.isLogging = true →
      t.connection.memory.isLogging = true) : IsResting t.world t.connection := by
  intro hfalse
  have hnot : c.memory.isLogging = false := by
    cases hl : c.memory.isLogging with
    | false => rfl
    | true =>
      rw [hlogging hl] at hfalse
      exact absurd hfalse (by simp)
  rw [hreads.handle]
  exact (hrest hnot).after hs.sound hs.hosts hreads.world.bound

/-- **A read of an image succeeds unless something stands in its way.** -/
theorem beginRead_of_isResting (hs : Starts w c) (hcontent : w.content c.handle = .database i)
    (hrest : IsResting w c) : (w.beginRead c).result = .ok (some i) ∧
      IsResting (w.beginRead c).world (w.beginRead c).connection := by
  have hreads := (beginRead_reads hs).toLooks
  have hblank : (w.content c.handle).isBlank = false := by
    rw [hcontent]
    rfl
  suffices hsuffices : (w.beginRead c).result = .ok (some i) ∧
      (c.memory.isLogging = true → (w.beginRead c).connection.memory.isLogging = true) from
    ⟨hsuffices.1, isResting_after hs hrest hreads hsuffices.2⟩
  unfold beginRead
  split
  · next hl => exact ⟨look_of_image hs hcontent, fun _ => (look_isLogging hs).trans hl⟩
  next hl =>
  have hl : c.memory.isLogging = false := by simpa using hl
  have hcalm := hrest hl
  refine ⟨?_, fun htrue => absurd (hl.symm.trans htrue) (by simp)⟩
  rw [(free_of_not_shared hcalm.alone).1]
  simp only [Bool.false_eq_true, if_false]
  have hundo := settleUndo_of_isCalm hs.sound hs.hosts hcalm hblank
  have htends := settleUndo_tends hs.sound hs.hosts
  cases hsettle : w.settleUndo c.handle with
  | mk w₁ r =>
  rw [hsettle] at hundo htends
  obtain rfl : r = .ok () := hundo
  have hs₁ : Starts w₁ c := (hs.aside htends (.ok ())).starts hs
  have hcontent₁ := hs.hosts.content_eq hs.sound htends.bound
  obtain ⟨isLogging, hlog⟩ := settleLog_of_isCalm hs₁.sound hs₁.hosts
    (hcalm.after hs.sound hs.hosts htends.bound) (hcontent₁.symm ▸ hblank)
  have htends₁ := settleLog_tends hs₁.sound hs₁.hosts
  simp only
  cases hsettle₁ : w₁.settleLog c.handle with
  | mk w₂ r₂ =>
  rw [hsettle₁] at hlog htends₁
  obtain rfl : r₂ = .ok isLogging := hlog
  have hcontent₂ := hs₁.hosts.content_eq hs₁.sound htends₁.bound
  refine look_of_image ⟨htends₁.bound.sound hs₁.sound, hs₁.hosts.after htends₁.bound, ?_⟩
    (hcontent₂.trans (hcontent₁.trans hcontent))
  exact hcontent₂.symm ▸ Memory.refresh_recalls hs₁.recalls

/-- Asking for a table that is there succeeds. -/
theorem makeTable_of_isResting (hs : Starts w c) {rows : Table}
    (hrows : w.table? c.handle = some rows) (hrest : IsResting w c) :
    (w.makeTable c).result = .ok () ∧ Looks w c (w.makeTable c) ∧
      IsResting (w.makeTable c).world (w.makeTable c).connection := by
  obtain ⟨i, hcontent, htable⟩ := content_of_table hrows
  obtain ⟨hresult, hresting⟩ := beginRead_of_isResting hs hcontent hrest
  have hlooks := readSchema_looks hs
  unfold makeTable
  unfold readSchema at hlooks ⊢
  cases hread : w.beginRead c with
  | mk w₁ c₁ r =>
  rw [hread] at hresult hresting hlooks
  obtain rfl : r = .ok (some i) := hresult
  simp only [schema_hasTable, Option.bind_some, htable, Option.isSome_some, if_true]
  exact ⟨trivial, hlooks.ends _, hresting⟩

/-- **Reading the rows succeeds unless something stands in its way.** -/
theorem readRows_of_isResting (hs : Starts w c) (hk : Knows c) {rows : Table}
    (hrows : w.table? c.handle = some rows) (hrest : IsResting w c) (q : Query) :
    (w.readRows c q).result = .ok rows := by
  obtain ⟨i, hcontent, htable⟩ := content_of_table hrows
  obtain ⟨ready, hunderstand⟩ := understand_of_knows w hk q
  have hs' : Starts w (c.remember { c.memory with ready := ready }) :=
    (hs.looks (m := { c.memory with ready := ready }) rfl (.ok ())).starts hs
  have hresult := (beginRead_of_isResting hs' hcontent hrest).1
  unfold readRows
  rw [hunderstand]
  simp only
  cases hread : w.beginRead (c.remember { c.memory with ready := ready }) with
  | mk w₁ c₁ r =>
  rw [hread] at hresult
  obtain rfl : r = .ok (some i) := hresult
  simp only [rowsOf, Option.bind_some, htable]

/-! ## 4. Failing -/

/-- A read that fails on an image has not taken up the log. -/
theorem beginRead_error (hs : Starts w c) (hcontent : w.content c.handle = .database i)
    {f : DatabaseFault} (herror : (w.beginRead c).result = .error f) :
    (w.beginRead c).connection.memory.isLogging = c.memory.isLogging := by
  unfold beginRead at herror ⊢
  split at herror
  · rw [look_of_image hs hcontent] at herror
    exact absurd herror (by simp)
  next hl =>
  rw [if_neg hl]
  split at herror
  · next hclosed => rw [if_pos hclosed]
  next hclosed =>
  rw [if_neg hclosed]
  have htends := settleUndo_tends hs.sound hs.hosts
  split at herror
  · rfl
  next w₁ heq =>
  rw [heq] at htends
  have hs₁ : Starts w₁ c := (hs.aside htends (.ok ())).starts hs
  have hcontent₁ := hs.hosts.content_eq hs.sound htends.bound
  have htends₁ := settleLog_tends hs₁.sound hs₁.hosts
  simp only at herror ⊢
  split at herror
  · exact Memory.refresh_isLogging ..
  next w₂ isLogging heq₂ =>
  rw [heq₂] at htends₁
  have hcontent₂ := hs₁.hosts.content_eq hs₁.sound htends₁.bound
  have hs₂ : Starts w₂ (c.remember { c.memory.refresh (w₁.content c.handle) with
      isLogging := isLogging }) :=
    ⟨htends₁.bound.sound hs₁.sound, hs₁.hosts.after htends₁.bound,
      hcontent₂.symm ▸ Memory.refresh_recalls hs₁.recalls⟩
  have hcontent' : w₂.content c.handle = .database i := hcontent₂.trans (hcontent₁.trans hcontent)
  rw [look_of_image hs₂ hcontent'] at herror
  exact absurd herror (by simp)

/-- **Where asking for a table that is there fails, no log was taken up.** -/
theorem makeTable_error (hs : Starts w c) {rows : Table} (hrows : w.table? c.handle = some rows)
    {f : DatabaseFault} (herror : (w.makeTable c).result = .error f) :
    (w.makeTable c).connection.memory.isLogging = c.memory.isLogging := by
  obtain ⟨i, hcontent, htable⟩ := content_of_table hrows
  have hread : ∀ g, (w.beginRead c).result = .error g →
      (w.beginRead c).connection.memory.isLogging = c.memory.isLogging := fun _ =>
    beginRead_error hs hcontent
  have hreads := beginRead_reads hs
  unfold makeTable readSchema at herror ⊢
  cases hbegin : w.beginRead c with
  | mk w₁ c₁ r =>
  rw [hbegin] at hread hreads
  cases r with
  | error g => exact hread g rfl
  | ok seen =>
    have hsome : seen = some i := by
      have hsame := hreads.seen rfl
      rw [hcontent, Content.seen_database] at hsame
      exact (Except.ok.inj hsame).symm
    subst hsome
    simp [hbegin, schema_hasTable, htable] at herror

end World

end CompileJournal
