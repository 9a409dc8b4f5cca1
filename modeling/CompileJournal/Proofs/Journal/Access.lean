import CompileJournal.Journal.Query
import CompileJournal.Proofs.Journal.Beside

/-!
# What an access does to the rows

A connection answers from what it remembers of the file, so an access gives the right rows only as
long as that is what the file holds.  This is the invariant here: what a connection remembers, its
file holds.  Every step of an access keeps it:

* `readRows_looks`: reading changes nothing in the database;
* `keep_spec`: a change that is kept puts its image into the database; one that is not leaves the
  database as it was.
-/

namespace CompileJournal

/-! ## 1. What a connection remembers -/

/-- What someone sees who reads a file with this content and remembers nothing. -/
def Content.seen (c : Content) : Except DatabaseFault (Option Image) :=
  if c.isBlank then .ok none
  else match c with
    | text _ => .error .notADatabase
    | database i => .ok (some i)

@[simp] theorem Content.seen_database (i : Image) : (Content.database i).seen = .ok (some i) := rfl

theorem Content.eq_image_of_seen {c : Content} {seen : Option Image} (h : c.seen = .ok seen) :
    seen = c.image? := by
  cases c with
  | text t =>
    unfold Content.seen at h
    split at h
    · cases h
      rfl
    · exact absurd h (by simp)
  | database i =>
    cases h
    rfl

theorem Content.eq_database_of_image {t : Content} {i : Image} (h : t.image? = some i) :
    t = .database i := by
  cases t with
  | text => exact absurd h (by simp [Content.image?])
  | database j => rw [Option.some.inj h]

/-- Nothing is seen of blank files alone. -/
theorem Content.isBlank_of_seen {c : Content} (h : c.seen = .ok none) : c.isBlank = true := by
  unfold Content.seen at h
  split at h
  · assumption
  · split at h <;> exact absurd h (by simp)

namespace Memory

/-- What is kept of a file is what the file holds. -/
def Recalls (m : Memory) (c : Content) : Prop :=
  match m.page with
  | .unread => True
  | .blank => c.isBlank = true
  | .image i => c = .database i

variable {m : Memory} {c : Content}

theorem refresh_recalls (h : m.Recalls c) : (m.refresh c).Recalls c := by
  unfold refresh
  split
  · exact h
  · exact True.intro

@[simp] theorem refresh_schema (m : Memory) (c : Content) : (m.refresh c).schema = m.schema := by
  unfold refresh
  split <;> rfl

@[simp] theorem refresh_ready (m : Memory) (c : Content) : (m.refresh c).ready = m.ready := by
  unfold refresh
  split <;> rfl

@[simp] theorem refresh_isLogging (m : Memory) (c : Content) :
    (m.refresh c).isLogging = m.isLogging := by
  unfold refresh
  split <;> rfl

theorem look_isLogging (m : Memory) (c : Content) : (m.look c).1.isLogging = m.isLogging := by
  unfold look
  split
  · split
    · rfl
    · rfl
  · split <;> rfl

theorem learn_isLogging (m : Memory) (q : Query) : (m.learn q).isLogging = m.isLogging := by
  unfold learn
  split
  · rfl
  · rfl

/-- **Looking at a file shows what the file holds**, whatever is remembered of it. -/
theorem look_spec (h : m.Recalls c) :
    (m.look c).1.Recalls c ∧ (m.look c).1.schema = m.schema ∧ (m.look c).1.ready = m.ready ∧
      (m.look c).1.isLogging = m.isLogging ∧ (m.look c).2 = c.seen := by
  unfold look Content.seen
  by_cases hblank : c.isBlank = true
  · simp only [hblank, if_true]
    by_cases hpage : m.page = .unread
    · rw [if_pos hpage]
      exact ⟨hblank, rfl, rfl, rfl, trivial⟩
    · rw [if_neg hpage]
      exact ⟨h, rfl, rfl, rfl, trivial⟩
  · simp only [hblank]
    unfold Recalls at h
    cases hpage : m.page with
    | unread =>
      cases c with
      | text t => exact ⟨by simp [Recalls], rfl, rfl, rfl, rfl⟩
      | database i => exact ⟨by simp [Recalls], rfl, rfl, rfl, rfl⟩
    | blank =>
      rw [hpage] at h
      exact absurd h hblank
    | image i =>
      rw [hpage] at h
      subst h
      exact ⟨by simp [Recalls, hpage], rfl, rfl, rfl, rfl⟩

end Memory

namespace World

variable {w : World} {c : Connection} {α β : Type}

/-! ## 2. Accesses that only look -/

/-- An access that leaves the database alone and remembers it rightly. -/
structure Looks (w : World) (c : Connection) (t : Turn α) : Prop where
  handle : t.connection.handle = c.handle
  world : w.Tends c.handle t.world
  recalls : t.connection.memory.Recalls (t.world.content t.connection.handle)

/-- An access starts from a world that hosts its database, with a memory of that database. -/
structure Starts (w : World) (c : Connection) : Prop where
  sound : w.IsSound
  hosts : w.Hosts c.handle
  recalls : c.memory.Recalls (w.content c.handle)

theorem Looks.starts {t : Turn α} (h : Looks w c t) (hs : Starts w c) :
    Starts t.world t.connection :=
  ⟨h.world.bound.sound hs.sound, h.handle ▸ hs.hosts.after h.world.bound, h.recalls⟩

theorem Looks.content {t : Turn α} (h : Looks w c t) (hs : Starts w c) :
    t.world.content t.connection.handle = w.content c.handle := by
  rw [h.handle]
  exact hs.hosts.content_eq hs.sound h.world.bound

theorem Looks.trans {t : Turn α} {t' : Turn β} (hs : Starts w c) (h : Looks w c t)
    (h' : Looks t.world t.connection t') : Looks w c t' :=
  ⟨h'.handle.trans h.handle, .trans hs.sound hs.hosts h.world (h.handle ▸ h'.world), h'.recalls⟩

/-- How an access ends says nothing about what it has changed. -/
theorem Looks.ends {t : Turn α} (h : Looks w c t) (r : Except DatabaseFault β) :
    Looks w c ⟨t.world, t.connection, r⟩ :=
  ⟨h.handle, h.world, h.recalls⟩

/-- An access that leaves the world as it is. -/
theorem Starts.looks (hs : Starts w c) {m : Memory} (hm : m.page = c.memory.page)
    (r : Except DatabaseFault α) : Looks w c ⟨w, c.remember m, r⟩ := by
  refine ⟨rfl, .refl hs.sound, ?_⟩
  have hrecalls := hs.recalls
  unfold Memory.Recalls at hrecalls ⊢
  rw [Connection.remember, hm]
  exact hrecalls

theorem Starts.stays (hs : Starts w c) (r : Except DatabaseFault α) : Looks w c ⟨w, c, r⟩ :=
  hs.looks (m := c.memory) rfl r

/-- An access that has changed something beside the database. -/
theorem Starts.aside (hs : Starts w c) {w' : World} (hw : w.Tends c.handle w')
    (r : Except DatabaseFault α) : Looks w c ⟨w', c, r⟩ :=
  ⟨rfl, hw, (hs.hosts.content_eq hs.sound hw.bound).symm ▸ hs.recalls⟩

/-- What reading the image of a database leaves. -/
structure Reads (w : World) (c : Connection) (t : Turn (Option Image)) : Prop
    extends Looks w c t where
  schema : t.connection.memory.schema = c.memory.schema
  ready : t.connection.memory.ready = c.memory.ready
  seen : ∀ {seen}, t.result = .ok seen → (w.content c.handle).seen = .ok seen

theorem look_reads (hs : Starts w c) : Reads w c (w.look c) := by
  obtain ⟨hrecalls, hschema, hready, -, hresult⟩ :=
    Memory.look_spec (Memory.refresh_recalls hs.recalls)
  refine ⟨⟨rfl, .refl hs.sound, hrecalls⟩, ?_, ?_, fun {seen} hseen => ?_⟩
  · exact hschema.trans (Memory.refresh_schema ..)
  · exact hready.trans (Memory.refresh_ready ..)
  · exact hresult.symm.trans hseen

theorem Reads.after {t : Turn α} {t' : Turn (Option Image)} (hs : Starts w c) (h : Looks w c t)
    (hschema : t.connection.memory.schema = c.memory.schema)
    (hready : t.connection.memory.ready = c.memory.ready)
    (h' : Reads t.world t.connection t') : Reads w c t' where
  toLooks := h.trans hs h'.toLooks
  schema := h'.schema.trans hschema
  ready := h'.ready.trans hready
  seen hseen := by
    rw [← h.content hs]
    exact h'.seen hseen

/-- A read that ended early. -/
theorem Looks.failed {t : Turn α} (h : Looks w c t)
    (hschema : t.connection.memory.schema = c.memory.schema)
    (hready : t.connection.memory.ready = c.memory.ready) (f : DatabaseFault) :
    Reads w c ⟨t.world, t.connection, .error f⟩ :=
  ⟨h.ends _, hschema, hready, by simp⟩

theorem beginRead_reads (hs : Starts w c) : Reads w c (w.beginRead c) := by
  unfold beginRead
  split
  · exact look_reads hs
  split
  · exact (hs.stays (.ok ())).failed rfl rfl _
  have hundo := settleUndo_tends hs.sound hs.hosts
  split
  · next w' f heq =>
    rw [heq] at hundo
    exact (hs.aside hundo (.ok ())).failed rfl rfl _
  next w' heq =>
  rw [heq] at hundo
  have hlooks : Looks w c ⟨w', c, .ok ()⟩ := hs.aside hundo _
  have hs' : Starts w' c := hlooks.starts hs
  have hlog := settleLog_tends hs'.sound hs'.hosts
  -- The memory is refreshed before the log is settled, which leaves the database alone.
  have hmemory : (c.memory.refresh (w'.content c.handle)).Recalls (w'.content c.handle) :=
    Memory.refresh_recalls hs'.recalls
  simp only
  split
  · next w'' f heq' =>
    rw [heq'] at hlog
    have hlooks' : Looks w c
        (⟨w'', c.remember (c.memory.refresh (w'.content c.handle)), .ok ()⟩ : Turn Unit) :=
      ⟨rfl, .trans hs.sound hs.hosts hundo hlog,
        (hs'.hosts.content_eq hs'.sound hlog.bound).symm ▸ hmemory⟩
    exact hlooks'.failed (Memory.refresh_schema ..) (Memory.refresh_ready ..) f
  · next w'' isLogging heq' =>
    rw [heq'] at hlog
    have hlooks' : Looks w c (⟨w'', c.remember { c.memory.refresh (w'.content c.handle) with
        isLogging := isLogging }, .ok ()⟩ : Turn Unit) :=
      ⟨rfl, .trans hs.sound hs.hosts hundo hlog,
        (hs'.hosts.content_eq hs'.sound hlog.bound).symm ▸ hmemory⟩
    exact .after hs hlooks' (Memory.refresh_schema ..) (Memory.refresh_ready ..)
      (look_reads (hlooks'.starts hs))

theorem beginWrite_reads (hs : Starts w c) (closesOff : Bool) :
    Reads w c (w.beginWrite c closesOff) := by
  have hread := beginRead_reads hs
  unfold beginWrite
  split
  · next w' c' f heq =>
    rw [heq] at hread
    exact hread.toLooks.failed hread.schema hread.ready f
  next w' c' seen heq =>
  rw [heq] at hread
  have hs' : Starts w' c' := hread.toLooks.starts hs
  have hopen := openUndo_tends hs'.sound hs'.hosts
  have hlater : ∀ w'', w'.Tends c'.handle w'' →
      ∀ r : Except DatabaseFault (Option Image), (∀ s, r = .ok s → s = seen) →
        Reads w c ⟨w'', c', r⟩ := by
    intro w'' hw r hr
    have haside : Looks w' c' (⟨w'', c', r⟩ : Turn (Option Image)) := hs'.aside hw r
    refine ⟨hread.toLooks.trans hs haside, hread.schema, hread.ready, fun hs => ?_⟩
    rw [hr _ hs]
    exact hread.seen rfl
  have hrefl : w'.Tends c'.handle w' := .refl hs'.sound
  simp only
  split
  · refine hlater _ hrefl _ ?_
    intro s hs
    split at hs
    · exact absurd hs (by simp)
    · exact (Except.ok.inj hs).symm
  split
  · exact hlater _ hrefl _ (by simp)
  split
  · exact hlater _ hrefl _ fun s hs => (Except.ok.inj hs).symm
  split
  · next w'' f heq' =>
    rw [heq'] at hopen
    exact hlater _ hopen _ (by simp)
  · next w'' heq' =>
    rw [heq'] at hopen
    exact hlater _ hopen _ fun s hs => (Except.ok.inj hs).symm

/-! ## 3. Statements that read -/

/-- The connection remembers that the table is there. -/
def Knows (c : Connection) : Prop := ∃ s, c.memory.schema = some s ∧ s.hasTable = true

/-- The rows that a database holds, if it has the table. -/
def table? (w : World) (h : Handle) : Option Table := (w.content h).image?.bind Image.table

/-- A table that is there makes an image of the file. -/
theorem content_of_table {h : Handle} {rows : Table} (hrows : w.table? h = some rows) :
    ∃ i, w.content h = .database i ∧ i.table = some rows := by
  obtain ⟨i, himage, htable⟩ := Option.bind_eq_some_iff.mp hrows
  exact ⟨i, Content.eq_database_of_image himage, htable⟩

theorem readSchema_looks (hs : Starts w c) : Looks w c (w.readSchema c) := by
  have hread := beginRead_reads hs
  unfold readSchema
  split
  · next w' c' f heq =>
    rw [heq] at hread
    exact hread.ends _
  · next w' c' seen heq =>
    rw [heq] at hread
    exact hread.toLooks.trans hs ((hread.toLooks.starts hs).looks
      (m := { c'.memory with schema := some (Image.schema seen) }) rfl _)

/-- The schema that is read is that of the image. -/
theorem readSchema_ok (hs : Starts w c) {w' : World} {c' : Connection} {s : Schema}
    (h : w.readSchema c = ⟨w', c', .ok s⟩) :
    s = Image.schema (w.content c.handle).image? ∧ c'.memory.schema = some s := by
  have hread := beginRead_reads hs
  unfold readSchema at h
  split at h
  · exact absurd (congrArg Turn.result h) (by simp)
  · next w'' c'' seen heq =>
    rw [heq] at hread
    cases h
    rw [Content.eq_image_of_seen (hread.seen rfl)]
    exact ⟨rfl, rfl⟩

theorem schema_hasTable {i : Option Image} :
    (Image.schema i).hasTable = (i.bind Image.table).isSome := by
  cases i <;> rfl

theorem learn_page (m : Memory) (q : Query) : (m.learn q).page = m.page := by
  unfold Memory.learn
  split <;> rfl

theorem learnFrom_looks (hs : Starts w c) (q : Query) (s : Schema) :
    Looks w c (w.learnFrom c q s) := by
  unfold learnFrom
  split
  · exact hs.looks (learn_page ..) _
  · exact hs.stays _

theorem learnAnew_looks (hs : Starts w c) (q : Query) : Looks w c (w.learnAnew c q) := by
  have hread := readSchema_looks hs
  unfold learnAnew
  split
  · next w' c' f heq =>
    rw [heq] at hread
    exact hread.ends _
  · next w' c' s heq =>
    rw [heq] at hread
    exact hread.trans hs (learnFrom_looks (hread.starts hs) q s)

theorem understand_looks (hs : Starts w c) (q : Query) : Looks w c (w.understand c q) := by
  have hread := beginRead_reads hs
  unfold understand
  split
  · exact hs.stays _
  split
  · exact learnAnew_looks hs q
  split
  · exact learnFrom_looks hs q _
  split
  · next w' c' f heq =>
    rw [heq] at hread
    exact hread.ends _
  · next w' c' seen heq =>
    rw [heq] at hread
    split
    · exact hread.toLooks.trans hs ((hread.toLooks.starts hs).stays _)
    · exact hread.toLooks.trans hs (learnAnew_looks (hread.toLooks.starts hs) q)

/-- A connection that knows of the table understands every statement at once. -/
theorem understand_of_knows (w : World) (hk : Knows c) (q : Query) :
    ∃ ready, w.understand c q = ⟨w, c.remember { c.memory with ready := ready }, .ok ()⟩ := by
  obtain ⟨s, hschema, htable⟩ := hk
  unfold understand
  split
  · exact ⟨c.memory.ready, rfl⟩
  · rw [hschema]
    simp only [htable, if_true, learnFrom]
    unfold Memory.learn
    split
    · exact ⟨c.memory.ready, rfl⟩
    · exact ⟨q :: c.memory.ready, rfl⟩

theorem rowsOf_looks (hs : Starts w c) (q : Query) (seen : Option Image) :
    Looks w c (w.rowsOf c q seen) := by
  unfold rowsOf
  split
  · exact hs.looks
      (m := { c.memory with schema := some (Image.schema seen) }.forget q) rfl _
  · exact hs.looks (m := { c.memory with schema := some (Image.schema seen) }) rfl _

/-- Reading the rows changes nothing in the database. -/
theorem readRows_looks (hs : Starts w c) (q : Query) : Looks w c (w.readRows c q) := by
  have hunderstand := understand_looks hs q
  unfold readRows
  split
  · next w' c' f heq =>
    rw [heq] at hunderstand
    exact hunderstand.ends _
  next w' c' heq =>
  rw [heq] at hunderstand
  have hs' : Starts w' c' := hunderstand.starts hs
  have hread := beginRead_reads hs'
  split
  · next w'' c'' f heq' =>
    rw [heq'] at hread
    exact hunderstand.trans hs (hread.ends (.error f))
  · next w'' c'' seen heq' =>
    rw [heq'] at hread
    exact hunderstand.trans hs
      (hread.toLooks.trans hs' (rowsOf_looks (hread.toLooks.starts hs') q seen))

/-! ## 4. Changes -/

theorem setImage_bounded {h : Handle} (hw : w.IsSound) (i : Image) :
    w.ChangesOnly h.IsBeside (· = h.file) (w.setImage h i) :=
  ⟨.setContent hw.tree _ (.inl rfl), rfl⟩

theorem content_setImage {h : Handle} (hn : h.file < w.disk.contents.length) (i : Image) :
    (w.setImage h i).content h = .database i :=
  Disk.contentOf_setContent_self w.disk hn _

/-- What an access leaves that may have changed the database. -/
structure Writes (w : World) (c : Connection) (t : Turn α) : Prop where
  handle : t.connection.handle = c.handle
  world : w.ChangesOnly c.handle.IsBeside (· = c.handle.file) t.world
  recalls : t.connection.memory.Recalls (t.world.content t.connection.handle)

theorem Looks.writes {t : Turn α} (h : Looks w c t) : Writes w c t :=
  ⟨h.handle, h.world.bound.mono (fun _ h => h) (fun _ h => h.elim), h.recalls⟩

theorem Writes.starts {t : Turn α} (h : Writes w c t) (hs : Starts w c) :
    Starts t.world t.connection :=
  ⟨h.world.sound hs.sound, h.handle ▸ hs.hosts.after h.world, h.recalls⟩

theorem Writes.trans {t : Turn α} {t' : Turn β} (h : Writes w c t)
    (h' : Writes t.world t.connection t') : Writes w c t' :=
  ⟨h'.handle.trans h.handle, h.world.trans (h.handle ▸ h'.world), h'.recalls⟩

/-- Writing an image, and removing the undo file if there is one. -/
theorem setImage_writes (hs : Starts w c) (i : Image) {w' : World}
    (hw' : (w.setImage c.handle i).ChangesOnly c.handle.IsBeside (fun _ => False) w') :
    Writes w c (⟨w', c.remember (c.memory.wrote i), .ok ()⟩ : Turn Unit) ∧
      w'.content c.handle = .database i := by
  have hset := setImage_bounded (h := c.handle) hs.sound i
  have hcontent : w'.content c.handle = .database i :=
    ((hs.hosts.after hset).content_eq (hset.sound hs.sound) hw').trans
      (content_setImage hs.hosts.number i)
  exact ⟨⟨rfl, hset.trans (hw'.mono (fun _ h => h) fun _ h => h.elim), hcontent⟩, hcontent⟩

/-- **Keeping a change** puts the new image into the database and remembers it; a change that is
not kept leaves the database as it was. -/
theorem keep_spec (hs : Starts w c) {seen : Option Image}
    (hseen : (w.content c.handle).seen = .ok seen) (i : Image) :
    Writes w c (w.keep c seen i) ∧
      match (w.keep c seen i).result with
      | .ok () => (w.keep c seen i).world.content c.handle = .database i ∧
          (w.keep c seen i).connection = c.remember (c.memory.wrote i)
      | .error _ => (w.keep c seen i).world.content c.handle = w.content c.handle := by
  have hfail : ∀ {w' : World} (f : DatabaseFault), w.Tends c.handle w' →
      Writes w c (⟨w', c, .error f⟩ : Turn Unit) ∧ w'.content c.handle = w.content c.handle :=
    fun f hw => ⟨(hs.aside hw (.error f)).writes, hs.hosts.content_eq hs.sound hw.bound⟩
  unfold keep
  simp only
  split
  · have hset := setImage_bounded (h := c.handle) hs.sound i
    obtain ⟨hwrites, hcontent⟩ := setImage_writes hs i (.refl (hset.sound hs.sound))
    exact ⟨hwrites, hcontent, rfl⟩
  have hopen : w.Tends c.handle (if seen.isSome then w.openUndo c.handle else (w, .ok ())).1 := by
    split
    · exact openUndo_tends hs.sound hs.hosts
    · exact .refl hs.sound
  split
  · next w' f heq =>
    rw [heq] at hopen
    exact hfail f hopen
  next w' heq =>
  rw [heq] at hopen
  have hs' : Starts w' c := (hs.aside hopen (.ok ())).starts hs
  split
  · refine hfail _ (.trans hs.sound hs.hosts hopen
      (dropUndo_tends hs'.sound hs'.hosts fun hblank u t hu => ?_))
    cases seen with
    | none =>
      rw [hs.hosts.content_eq hs.sound hopen.bound, Content.isBlank_of_seen hseen] at hblank
      exact absurd hblank (by simp)
    | some j => exact (openUndo_after hs.sound hs.hosts hu heq).2 t
  · have hset := setImage_bounded (h := c.handle) hs'.sound i
    obtain ⟨hwrites, hcontent⟩ :=
      setImage_writes hs' i
        (dropUndo_bounded (hset.sound hs'.sound) (hs'.hosts.after hset) fun _ => .inl)
    refine ⟨?_, hcontent, rfl⟩
    exact ⟨rfl, (hopen.bound.mono (fun _ h => h) fun _ h => h.elim).trans hwrites.world,
      hwrites.recalls⟩

end World

end CompileJournal
