import CompileJournal.Journal.Outside
import CompileJournal.Proofs.Journal.Answers
import CompileJournal.Proofs.Journal.Frames

/-!
# Taking turns at one database

Several connections have one database open and add rows to it in turns, while other programs begin
and end transactions on it.  Each goes by what it remembers of the file, which others may have
changed since, and whatever lies beside the database decides how changes are kept.

A row that is put nevertheless comes to the rows that are there at that moment.  There are two ways
of keeping a change, and each has its reason.  Whoever uses the log looks at the file anew each
time.  Whoever does not finds out by the count of changes that its memory is old; a change that is
not counted is one in the log, and as long as anybody uses the log no counted change is kept.

* `World.HasLogger`: somebody uses the log;
* `World.Passes`, `World.Sees`: accesses that leave the file alone;
* `World.TakesTurn`, `putRow_turns`: a row that is put, or not;
* `lock_turns`, `unlock_turns`: transactions from outside.
-/

namespace CompileJournal

namespace World

variable {w w' v : World} {c d : Connection} {h : Handle} {q : Query} {α β : Type}

/-- A connection to the file uses the log. -/
def HasLogger (w : World) (n : FileNumber) : Prop :=
  ∃ c, some c ∈ w.connections ∧ c.handle.file = n ∧ c.memory.isLogging = true

/-- Whoever uses the log keeps the file shared. -/
theorem HasLogger.isShared {n : FileNumber} (hl : w.HasLogger n) : w.isShared n = true := by
  obtain ⟨c, hc, hfile, hlogging⟩ := hl
  rw [World.isShared, Bool.or_eq_true]
  exact .inr (List.any_eq_true.mpr ⟨some c, hc, by simp [hfile, hlogging]⟩)

/-- What a connection remembers of the file is of some use: somebody uses the log, so that no
counted change is kept, or it does so itself, or its memory is in agreement with the file. -/
def Trusts (w : World) (c : Connection) : Prop :=
  w.HasLogger c.handle.file ∨ c.memory.isLogging = true ∨ c.memory.Agrees (w.content c.handle)

/-! ## 1. Accesses that leave the file alone -/

/-- An access that changes nothing but what lies beside the file.  If the memory was in agreement
with the file, it still is, or the log is used from now on. -/
structure Passes (w : World) (c : Connection) (t : Turn α) : Prop where
  handle : t.connection.handle = c.handle
  world : w.Leaves c.handle t.world
  logging : c.memory.isLogging = true → t.connection.memory.isLogging = true
  agrees : c.memory.Agrees (w.content c.handle) →
    t.connection.memory.isLogging = true ∨ t.connection.memory.Agrees (w.content c.handle)

/-- A look at the file.  With the log, or with a memory in agreement, it shows what is there. -/
structure Sees (w : World) (c : Connection) (t : Turn (Option Image)) : Prop
    extends Passes w c t where
  seen : ∀ {seen}, t.result = .ok seen →
    t.connection.memory.isLogging = true ∨ c.memory.Agrees (w.content c.handle) →
    (w.content c.handle).seen = .ok seen

theorem Passes.aside {t : Turn α} (hhandle : t.connection = c)
    (hworld : w.Leaves c.handle t.world) : Passes w c t := by
  subst hhandle
  exact ⟨rfl, hworld, id, .inr⟩

theorem Passes.ends {t : Turn α} (ht : Passes w c t) (r : Except DatabaseFault β) :
    Passes w c ⟨t.world, t.connection, r⟩ := ⟨ht.handle, ht.world, ht.logging, ht.agrees⟩

theorem Passes.carries {t : Turn α} (ht : Passes w c t) :
    t.world.Carries t.connection.handle := ht.handle ▸ ht.world.carries

theorem Passes.content {t : Turn α} (ht : Passes w c t) :
    t.world.content t.connection.handle = w.content c.handle := by
  rw [ht.handle]
  exact ht.world.content

theorem Passes.trans {t : Turn α} {t' : Turn β} (ht : Passes w c t)
    (ht' : Passes t.world t.connection t') : Passes w c t' where
  handle := ht'.handle.trans ht.handle
  world := ht.world.trans (ht.handle ▸ ht'.world)
  logging hl := ht'.logging (ht.logging hl)
  agrees ha := by
    have hcontent := ht.content
    rcases ht.agrees ha with hl | ha'
    · exact .inl (ht'.logging hl)
    · rw [← hcontent] at ha' ⊢
      exact ht'.agrees ha'

theorem Passes.sees {t : Turn α} {t' : Turn (Option Image)} (ht : Passes w c t)
    (ht' : Sees t.world t.connection t') : Sees w c t' where
  toPasses := ht.trans ht'.toPasses
  seen {seen} hok hright := by
    have hcontent := ht.content
    rw [← hcontent] at hright ⊢
    refine ht'.seen hok (hright.elim .inl fun ha => ?_)
    rw [hcontent] at ha ⊢
    exact (ht.agrees ha).imp ht'.logging id

/-- An access that changes no more than which tables are remembered. -/
theorem Passes.remembers {t : Turn α} (ht : Passes w c t) {m : Memory}
    (hlogging : m.isLogging = t.connection.memory.isLogging)
    (hagrees : c.memory.Agrees (w.content c.handle) →
      t.connection.memory.Agrees (w.content c.handle) → m.Agrees (w.content c.handle))
    (r : Except DatabaseFault β) : Passes w c ⟨t.world, t.connection.remember m, r⟩ where
  handle := ht.handle
  world := ht.world
  logging hl := hlogging.trans (ht.logging hl)
  agrees ha := (ht.agrees ha).imp hlogging.trans (hagrees ha)

/-! ## 2. Looking -/

theorem look_sees (hh : w.Carries c.handle) : Sees w c (w.look c) := by
  have hrecalls : c.memory.isLogging = true ∨ c.memory.Agrees (w.content c.handle) →
      (c.memory.refresh (w.content c.handle)).Recalls (w.content c.handle) := by
    rintro (hl | ha)
    · simp [Memory.refresh, hl, Memory.Recalls]
    · exact ha.recalls
  have hlogging : ((c.memory.refresh (w.content c.handle)).look (w.content c.handle)).1.isLogging =
      c.memory.isLogging := (Memory.look_isLogging _ _).trans (Memory.refresh_isLogging _ _)
  refine ⟨⟨rfl, .refl hh, hlogging.trans, fun ha => .inr ha.see.1⟩, fun {seen} hok hright => ?_⟩
  obtain ⟨-, -, -, -, hseen⟩ := Memory.look_spec (hrecalls (hright.imp_left hlogging.symm.trans))
  exact hseen.symm.trans hok

/-- **Reading shows what is there**, whatever lies beside the file. -/
theorem beginRead_sees (hh : w.Carries c.handle) : Sees w c (w.beginRead c) := by
  have hfails : ∀ {v : World} {f : DatabaseFault}, w.Leaves c.handle v →
      Sees w c ⟨v, c, .error f⟩ := fun hv => ⟨.aside rfl hv, fun hok => absurd hok (by simp)⟩
  unfold beginRead
  split
  · exact look_sees hh
  next hnolog =>
  rw [Bool.not_eq_true] at hnolog
  split
  · exact hfails (.refl hh)
  have hundo := (isFrame_leaves c.handle).settleUndo w hh
  split
  · next v f heq =>
    rw [heq] at hundo
    exact hfails hundo
  next v heq =>
  rw [heq] at hundo
  have hcontent : v.content c.handle = w.content c.handle := hundo.content
  have hlog := (isFrame_leaves c.handle).settleLog v hundo.carries
  -- The memory is refreshed before the log is settled, which leaves the file alone.
  have hrefreshed : ∀ {v' : World} {r : Except DatabaseFault (Option Image)},
      v.Leaves c.handle v' →
      Passes w c ⟨v', c.remember (c.memory.refresh (v.content c.handle)), r⟩ := by
    intro v' r hv'
    have haside : Passes w c (⟨v', c, .ok ()⟩ : Turn Unit) := .aside rfl (hundo.trans hv')
    refine haside.remembers (Memory.refresh_isLogging _ _) (fun ha _ => ?_) r
    rw [hcontent]
    exact ha.refresh
  simp only
  split
  · next v' f heq' =>
    rw [heq'] at hlog
    exact ⟨hrefreshed hlog, fun hok => absurd hok (by simp)⟩
  · next v' isLogging heq' =>
    rw [heq'] at hlog
    have hpasses : Passes w c (⟨v', c.remember
        { c.memory.refresh (v.content c.handle) with isLogging := isLogging }, .ok ()⟩ :
          Turn Unit) := by
      refine ⟨rfl, hundo.trans hlog, fun hl => ?_, fun ha => ?_⟩
      · rw [hnolog] at hl
        exact absurd hl (by simp)
      · cases isLogging with
        | true => exact .inl rfl
        | false =>
          refine .inr ?_
          have hagrees := ha.refresh
          rw [← hcontent] at hagrees
          have hsame : ({ c.memory.refresh (v.content c.handle) with isLogging := false } :
              Memory) = c.memory.refresh (v.content c.handle) := by
            rw [← hagrees.isLogging]
          rw [← hcontent, Connection.remember, hsame]
          exact hagrees
    exact hpasses.sees (look_sees hpasses.carries)

theorem readSchema_passes (hh : w.Carries c.handle) : Passes w c (w.readSchema c) := by
  have hsees := beginRead_sees hh
  unfold readSchema
  cases hturn : w.beginRead c with
  | mk v d r =>
  rw [hturn] at hsees
  cases r with
  | error f => exact hsees.toPasses.ends _
  | ok seen =>
    refine hsees.toPasses.remembers
      (m := { d.memory with schema := some (Image.schema seen) }) rfl (fun ha ha' => ?_) _
    rw [Content.eq_image_of_seen (hsees.seen rfl (.inr ha))]
    exact ha'.withSchema

theorem learnFrom_passes (hh : w.Carries c.handle) (q : Query) (s : Schema) :
    Passes w c (w.learnFrom c q s) := by
  have hrefl : Passes w c (⟨w, c, .ok ()⟩ : Turn Unit) := .aside rfl (.refl hh)
  unfold learnFrom
  split
  · exact hrefl.remembers (Memory.learn_isLogging _ _) (fun _ ha => ha.learn q) _
  · exact hrefl.ends _

theorem learnAnew_passes (hh : w.Carries c.handle) (q : Query) :
    Passes w c (w.learnAnew c q) := by
  have hschema := readSchema_passes hh
  unfold learnAnew
  split
  · next heq =>
    rw [heq] at hschema
    exact hschema.ends _
  · next heq =>
    rw [heq] at hschema
    exact hschema.trans (learnFrom_passes hschema.carries q _)

theorem understand_passes (hh : w.Carries c.handle) (q : Query) :
    Passes w c (w.understand c q) := by
  have hsees := beginRead_sees hh
  unfold understand
  split
  · exact .aside rfl (.refl hh)
  split
  · exact learnAnew_passes hh q
  split
  · exact learnFrom_passes hh q _
  split
  · next heq =>
    rw [heq] at hsees
    exact hsees.toPasses.ends _
  · next heq =>
    rw [heq] at hsees
    split
    · exact hsees.toPasses.ends _
    · exact hsees.toPasses.trans (learnAnew_passes hsees.carries q)

theorem beginWrite_sees (hh : w.Carries c.handle) (closesOff : Bool) :
    Sees w c (w.beginWrite c closesOff) := by
  have hsees := beginRead_sees hh
  unfold beginWrite
  cases hturn : w.beginRead c with
  | mk v d r =>
  rw [hturn] at hsees
  cases r with
  | error f => exact ⟨hsees.toPasses.ends _, fun hok => absurd hok (by simp)⟩
  | ok seen =>
  have hhv := hsees.carries
  have hlater : ∀ {v' : World} {r : Except DatabaseFault (Option Image)},
      v.Leaves d.handle v' → (∀ s, r = .ok s → s = seen) → Sees w c ⟨v', d, r⟩ := by
    intro v' r hv' hr
    have haside : Passes v d (⟨v', d, r⟩ : Turn (Option Image)) := .aside rfl hv'
    refine ⟨hsees.toPasses.trans haside, fun hok hright => ?_⟩
    rw [hr _ hok]
    exact hsees.seen rfl hright
  have hopen := (isFrame_leaves d.handle).openUndo v hhv
  simp only
  split
  · refine hlater (.refl hhv) fun s hs => ?_
    split at hs
    · exact absurd hs (by simp)
    · exact (Except.ok.inj hs).symm
  split
  · exact hlater (.refl hhv) (by simp)
  split
  · exact hlater (.refl hhv) fun s hs => (Except.ok.inj hs).symm
  split
  · next heq =>
    rw [heq] at hopen
    exact hlater hopen (by simp)
  · next heq =>
    rw [heq] at hopen
    exact hlater hopen fun s hs => (Except.ok.inj hs).symm

/-! ## 3. Putting a row -/

/-- What keeping a change leaves: the new image, by somebody who uses the log or while nobody else
uses the file, or the old one. -/
structure KeepsOrNot (w : World) (c : Connection) (i : Image) (t : Turn Unit) : Prop where
  world : w.Retains c.handle t.world
  kept : t.result = .ok () → t.world.content c.handle = .database i ∧
    t.connection = c.remember (c.memory.wrote i) ∧
    (c.memory.isLogging = true ∨ w.isShared c.handle.file = false)
  refused : ∀ f, t.result = .error f → t.connection = c ∧ w.Leaves c.handle t.world

theorem keep_keepsOrNot (hh : w.Carries c.handle) (seen : Option Image) (i : Image) :
    KeepsOrNot w c i (w.keep c seen i) := by
  have hframe := isFrame_leaves c.handle
  have hrefused : ∀ {v : World} (f : DatabaseFault), w.Leaves c.handle v →
      KeepsOrNot w c i ⟨v, c, .error f⟩ := fun f hv =>
    ⟨hv.toRetains, fun hok => absurd hok (by simp), fun _ _ => ⟨rfl, hv⟩⟩
  -- The image is written, and at most what lies beside the file is put away after that.
  have hkept : ∀ {v v' : World}, w.Leaves c.handle v → (v.setImage c.handle i).Leaves c.handle v' →
      (c.memory.isLogging = true ∨ w.isShared c.handle.file = false) →
      KeepsOrNot w c i ⟨v', c.remember (c.memory.wrote i), .ok ()⟩ := by
    intro v v' hv hv' hway
    have hset := setImage_retains hv.carries c.handle i
    exact ⟨hv.toRetains.trans (hset.trans hv'.toRetains),
      fun _ => ⟨hv'.content.trans (content_setImage hv.carries.number i), rfl, hway⟩,
      fun f hf => absurd hf (by simp)⟩
  have hset : ∀ {v : World}, w.Leaves c.handle v → (v.setImage c.handle i).Carries c.handle :=
    fun hv => (setImage_retains hv.carries c.handle i).carries
  unfold keep
  simp only
  split
  · next hl => exact hkept (.refl hh) (.refl (hset (.refl hh))) (.inl hl)
  have hopen : w.Leaves c.handle
      (if seen.isSome then w.openUndo c.handle else (w, .ok ())).1 := by
    split
    · exact hframe.openUndo w hh
    · exact .refl hh
  split
  · next heq =>
    rw [heq] at hopen
    exact hrefused _ hopen
  next v heq =>
  rw [heq] at hopen
  split
  · exact hrefused _ (hopen.trans (hframe.dropUndo v hopen.carries))
  · next hfree =>
    refine hkept hopen (hframe.dropUndo _ (hset hopen)) (.inr ?_)
    rw [← isShared_eq hopen.locks hopen.connections]
    simpa using hfree

/-- What a connection leaves whose turn it was to change the rows.  If its memory could be trusted,
either its change has gone into the log, or nothing was changed, or the change was counted while
nobody used the log; then what others remember of the file is in agreement with it as before. -/
structure TakesTurn (w : World) (c : Connection) (becomes : Option Table → Option Table → Prop)
    (t : Turn Unit) : Prop where
  handle : t.connection.handle = c.handle
  world : w.Retains c.handle t.world
  logging : c.memory.isLogging = true → t.connection.memory.isLogging = true
  refused : ∀ f, t.result = .error f → t.world.content c.handle = w.content c.handle
  kept : w.Trusts c → t.result = .ok () → becomes (w.table? c.handle) (t.world.table? c.handle)
  memory : w.Trusts c → t.connection.memory.isLogging = true ∨
    (t.world.content c.handle = w.content c.handle ∧
      (c.memory.Agrees (w.content c.handle) →
        t.connection.memory.Agrees (w.content c.handle))) ∨
    ¬w.HasLogger c.handle.file ∧ t.connection.memory.Agrees (t.world.content c.handle) ∧
      ∀ m : Memory, m.Agrees (w.content c.handle) → m.Agrees (t.world.content c.handle)

/-- A turn that left the file alone. -/
theorem Passes.takesTurn {t : Turn α} {becomes : Option Table → Option Table → Prop}
    (ht : Passes w c t) {r : Except DatabaseFault Unit}
    (hr : w.Trusts c → r = .ok () → becomes (w.table? c.handle) (w.table? c.handle)) :
    TakesTurn w c becomes ⟨t.world, t.connection, r⟩ where
  handle := ht.handle
  world := ht.world.toRetains
  logging := ht.logging
  refused _ _ := ht.world.content
  kept htrusts hok := by
    rw [table?_of_content ht.world.content]
    exact hr htrusts hok
  memory _ := by
    cases hl : t.connection.memory.isLogging with
    | true => exact .inl rfl
    | false =>
      exact .inr (.inl ⟨ht.world.content, fun ha =>
        (ht.agrees ha).resolve_left (by simp [hl])⟩)

theorem Passes.takesTurn_error {t : Turn α} {becomes : Option Table → Option Table → Prop}
    (ht : Passes w c t) (f : DatabaseFault) :
    TakesTurn w c becomes ⟨t.world, t.connection, .error f⟩ :=
  ht.takesTurn fun _ hok => absurd hok (by simp)

/-- The rows of the image that was seen, and what is remembered then. -/
theorem rowsOf_cases (w : World) (c : Connection) (q : Query) (seen : Option Image) :
    (∃ m : Memory, m.isLogging = c.memory.isLogging ∧
        (∀ t : Content, seen = t.image? → c.memory.Agrees t → m.Agrees t) ∧
        w.rowsOf c q seen = ⟨w, c.remember m, .error .noTable⟩) ∨
      ∃ i rows, seen = some i ∧ i.table = some rows ∧ w.rowsOf c q seen =
        ⟨w, c.remember { c.memory with schema := some (Image.schema seen) }, .ok rows⟩ := by
  unfold rowsOf
  simp only
  split
  · refine .inl ⟨({ c.memory with schema := some (Image.schema seen) } : Memory).forget q, rfl,
      fun t ht ha => ?_, rfl⟩
    subst ht
    exact ha.withSchema.withReady _
  · next rows hrows =>
    obtain ⟨i, rfl, hi⟩ := Option.bind_eq_some_iff.mp hrows
    exact .inr ⟨i, rows, rfl, hi, rfl⟩

/-- A change that was begun with the image that was seen, and kept or not. -/
theorem Sees.takesTurn {becomes : Option Table → Option Table → Prop} {seen : Option Image}
    {j : Image} {m : Memory} {t : Turn Unit} (hsees : Sees w c ⟨v, d, .ok seen⟩)
    (hlogging : m.isLogging = d.memory.isLogging)
    (hagrees : seen = (w.content c.handle).image? → d.memory.Agrees (w.content c.handle) →
      m.Agrees (w.content c.handle))
    (hbecomes : becomes (seen.bind Image.table) j.table)
    (hadvances : d.memory.isLogging = false → (w.content c.handle).seen = .ok seen →
      (w.content c.handle).Advances j)
    (hkeeps : KeepsOrNot v (d.remember m) j t) : TakesTurn w c becomes t := by
  have hhandle : d.handle = c.handle := hsees.handle
  have hworld : w.Leaves c.handle v := hsees.world
  have hshared : v.isShared c.handle.file = w.isShared c.handle.file :=
    isShared_eq hworld.locks hworld.connections _
  have hsame : ∀ {v'}, v.Leaves d.handle v' → v'.content c.handle = w.content c.handle :=
    fun hv' => (hworld.trans (hhandle ▸ hv')).content
  -- Nobody uses the log if a counted change is kept, so that the image that was seen is right.
  have hfresh : w.Trusts c →
      d.memory.isLogging = true ∨ v.isShared d.handle.file = false →
      (w.content c.handle).seen = .ok seen ∧
        (d.memory.isLogging = true ∨ ¬w.HasLogger c.handle.file) := by
    intro htrusts hway
    rw [hhandle, hshared] at hway
    have hlone : d.memory.isLogging = true ∨ ¬w.HasLogger c.handle.file := by
      refine hway.imp_right fun hfree hl => ?_
      rw [hl.isShared] at hfree
      exact absurd hfree (by simp)
    refine ⟨hsees.seen rfl ?_, hlone⟩
    rcases htrusts with hl | hl | ha
    · exact .inl (hlone.resolve_right (not_not.mpr hl))
    · exact .inl (hsees.logging hl)
    · exact .inr ha
  have hseen : ∀ {s : Option Image}, (w.content c.handle).seen = .ok s →
      s = (w.content c.handle).image? := Content.eq_image_of_seen
  refine ⟨?_, hworld.toRetains.trans (hhandle ▸ hkeeps.world),
    fun hl => ?_, fun f hf => hsame (hkeeps.refused f hf).2, fun htrusts hok => ?_,
    fun htrusts => ?_⟩
  · cases hr : t.result with
    | ok u => rw [(hkeeps.kept hr).2.1]; exact hhandle
    | error f => rw [(hkeeps.refused f hr).1]; exact hhandle
  · have hl' : m.isLogging = true := hlogging.trans (hsees.logging hl)
    cases hr : t.result with
    | ok u => rw [(hkeeps.kept hr).2.1]; exact hl'
    | error f => rw [(hkeeps.refused f hr).1]; exact hl'
  · obtain ⟨hcontent, -, hway⟩ := hkeeps.kept hok
    have himage := hseen (hfresh htrusts (hway.imp_left hlogging.symm.trans)).1
    have hafter : t.world.content c.handle = .database j := hhandle ▸ hcontent
    rw [table?_of_image hafter]
    have hbefore : w.table? c.handle = seen.bind Image.table := by rw [himage, table?]
    rw [hbefore]
    exact hbecomes
  · cases hl : d.memory.isLogging with
    | true =>
      refine .inl ?_
      cases hr : t.result with
      | ok u => rw [(hkeeps.kept hr).2.1]; exact hlogging.trans hl
      | error f => rw [(hkeeps.refused f hr).1]; exact hlogging.trans hl
    | false =>
    cases hr : t.result with
    | error f =>
      obtain ⟨hconnection, hv'⟩ := hkeeps.refused f hr
      refine .inr (.inl ⟨hsame hv', fun ha => ?_⟩)
      rw [hconnection]
      exact hagrees (hseen (hsees.seen rfl (.inr ha)))
        ((hsees.agrees ha).resolve_left (by simp [hl]))
    | ok u =>
      obtain ⟨hcontent, hconnection, hway⟩ := hkeeps.kept hr
      obtain ⟨hright, hlone⟩ := hfresh htrusts (hway.imp_left hlogging.symm.trans)
      have hafter : t.world.content c.handle = .database j := hhandle ▸ hcontent
      refine .inr (.inr ⟨hlone.resolve_left (by simp [hl]), ?_, fun m' hm' => ?_⟩)
      · rw [hconnection, hafter]
        exact .wrote (hlogging.trans hl) j
      · rw [hafter]
        exact hm'.advance (hadvances hl hright)

/-- **A row that is put comes to the rows that are there**, whoever else works on the database, and
one that is not put leaves them. -/
theorem putRow_turns (hh : w.Carries c.handle) (r : Row) :
    TakesTurn w c (fun before after => ∃ rows, before = some rows ∧ after = some (rows.put r))
      (w.putRow c r) := by
  have hunderstand := understand_passes hh .put
  unfold putRow
  cases hturn : w.understand c .put with
  | mk v d result =>
  rw [hturn] at hunderstand
  cases result with
  | error f => exact hunderstand.takesTurn_error f
  | ok u =>
  have hsees := hunderstand.sees (beginWrite_sees hunderstand.carries false)
  simp only
  cases hturn' : v.beginWrite d false with
  | mk v d result =>
  rw [hturn'] at hsees
  cases result with
  | error f => exact hsees.toPasses.takesTurn_error f
  | ok seen =>
  have hhv := hsees.carries
  simp only
  rcases rowsOf_cases v d .put seen with ⟨m, hlogging, hagrees, heq⟩ | ⟨i, rows, rfl, hi, heq⟩
  · have hgiven : v.Leaves d.handle (v.giveUp (d.remember m) seen) :=
      (isFrame_leaves d.handle).giveUp (c := d.remember m) rfl seen hhv
    have hgivenUp : Passes v d (⟨v.giveUp (d.remember m) seen, d, .ok ()⟩ : Turn Unit) :=
      .aside rfl hgiven
    have hpasses := hsees.toPasses.trans hgivenUp
    rw [heq]
    exact (hpasses.remembers (r := .ok ()) hlogging (fun ha => hagrees _
      (Content.eq_image_of_seen (hsees.seen rfl (.inr ha))))).takesTurn_error .noTable
  · rw [heq]
    have hkeeps := keep_keepsOrNot (c := d.remember { d.memory with
      schema := some (Image.schema (some i)) }) hhv (some i)
      (i.withRows (!d.memory.isLogging) (rows.put r))
    refine hsees.takesTurn (m := { d.memory with schema := some (Image.schema (some i)) })
      rfl (fun himage ha => himage ▸ ha.withSchema) ⟨rows, hi, rfl⟩
      (fun hl hright => ?_) hkeeps
    rw [Content.eq_database_of_image (Content.eq_image_of_seen hright).symm, hl]
    exact Image.withRows_advances hi _

/-- A connection that looked at the file and has found what is there. -/
theorem readSchema_seen (hh : w.Carries c.handle) (ha : c.memory.Agrees (w.content c.handle))
    {s : Schema} (hok : (w.readSchema c).result = .ok s) :
    s = Image.schema (w.content c.handle).image? := by
  have hsees := beginRead_sees hh
  unfold readSchema at hok
  cases hturn : w.beginRead c with
  | mk v d r =>
  rw [hturn] at hsees hok
  cases r with
  | error f => exact absurd hok (by simp)
  | ok seen =>
    rw [← Content.eq_image_of_seen (hsees.seen rfl (.inr ha))]
    exact (Except.ok.inj hok).symm

/-- **Making the table** leaves the rows if it is there. -/
theorem makeTable_turns (hh : w.Carries c.handle) (ha : c.memory.Agrees (w.content c.handle)) :
    TakesTurn w c (fun before after => after = some (before.getD [])) (w.makeTable c) := by
  have hpasses := readSchema_passes hh
  have hschema := fun s => readSchema_seen (s := s) hh ha
  unfold makeTable
  cases hturn : w.readSchema c with
  | mk v d result =>
  rw [hturn] at hpasses hschema
  cases result with
  | error f => exact hpasses.takesTurn_error f
  | ok s =>
  have hs := hschema s rfl
  simp only
  split
  · next htable =>
    refine hpasses.takesTurn fun _ _ => ?_
    rw [hs, schema_hasTable] at htable
    obtain ⟨rows, hrows⟩ := Option.isSome_iff_exists.mp htable
    rw [table?, hrows]
    rfl
  next hmissing =>
  rw [hs, schema_hasTable, Bool.not_eq_true, Option.isSome_eq_false_iff,
    Option.isNone_iff_eq_none] at hmissing
  have hsees := hpasses.sees (beginWrite_sees hpasses.carries false)
  cases hturn' : v.beginWrite d false with
  | mk v d result =>
  rw [hturn'] at hsees
  cases result with
  | error f => exact hsees.toPasses.takesTurn_error f
  | ok seen =>
  have hright := hsees.seen rfl (.inr ha)
  have himage := Content.eq_image_of_seen hright
  refine hsees.takesTurn (m := d.memory) rfl (fun _ h => h) ?_ (fun _ _ => ?_)
    (keep_keepsOrNot hsees.carries seen _)
  · rw [withTable_table, himage, hmissing]
    rfl
  · rw [himage]
    rcases seen_cases (w.content c.handle) with ⟨-, hfits⟩ | ⟨hwrong, -⟩
    · exact Image.withTable_advances hfits _
    · rw [hwrong] at hright
      exact absurd hright (by simp)

/-! ## 4. Transactions from outside -/

/-- A path under which other programs come to the database of a handle. -/
def IsPathTo (w : World) (path : Text) (h : Handle) : Prop :=
  isPrivateDatabase path = false ∧ h.place.isSome ∧ w.databasePlace? path = h.place

instance (w : World) (path : Text) (h : Handle) : Decidable (w.IsPathTo path h) :=
  inferInstanceAs (Decidable (_ ∧ _ ∧ _))

/-- What is left when a transaction on a database has begun or ended, or when it has not: nothing
has changed but what lies beside the database, and the locks. -/
structure Minds (w : World) (h : Handle) (w' : World) : Prop where
  disk : w.disk.ChangesOnly h.IsBeside (fun _ => False) w'.disk
  cwd : w'.cwd = w.cwd
  connections : w'.connections = w.connections

theorem ChangesOnly.minds (hv : w.ChangesOnly h.IsBeside (fun _ => False) v) (locks : List Lock) :
    Minds w h { v with locks := locks } := ⟨hv.disk, hv.cwd, hv.connections⟩

namespace Minds

variable (hm : Minds w h w') (hw : w.IsSound) (hh : w.Hosts h)
include hm hw hh

omit hh in
theorem sound : w'.IsSound := by
  refine ⟨hm.disk.tree, ?_⟩
  rw [hm.cwd]
  exact hm.disk.directory hw.cwd

omit hw in
theorem hosts : w'.Hosts h := hh.elsewhere hm.disk Handle.not_isBeside

theorem content_eq : w'.content h = w.content h := by
  cases hplace : h.place with
  | none =>
    exact hm.disk.content hh.number id fun x hx => absurd hx (Handle.not_isBeside_of_private hplace)
  | some p => exact hm.disk.content_kept hw.tree (hh.place hplace) (Handle.not_isBeside hplace) id

end Minds

theorem IsFrame.beginLock {R : World → World → Prop} (hR : IsFrame h R) (hc : c.handle = h)
    (mode : LockMode) : Spans (·.handle = h) R w (w.beginLock c mode) := by
  cases mode with
  | deferred => exact hR.reads.stays hc _
  | shared => exact hR.reads.beginRead hc
  | immediate => exact hR.beginWrite hc false
  | exclusive => exact hR.beginWrite hc true

/-- A connection that comes to the database of a handle. -/
theorem connect_of_isPathTo (hw : w.IsSound) (hh : w.Hosts h) {path : Text}
    (hpath : w.IsPathTo path h) (hconnect : w.connect path = .ok (v, c)) :
    v = w ∧ c.handle = h := by
  obtain ⟨hprivate, hsome, hleads⟩ := hpath
  obtain ⟨p, hp⟩ := Option.isSome_iff_exists.mp hsome
  have hconnects := connect_ok hw hconnect
  obtain ⟨q, hq, hleads'⟩ := hconnects.exists_place hprivate
  obtain rfl := Option.some.inj ((hleads.trans hp).symm.trans hleads')
  have hentry := hh.place hp
  obtain rfl : v = w := by
    rcases hconnects.file with heq | ha
    · exact heq
    · rw [ha.place hq] at hentry
      exact absurd hentry (by simp)
  refine ⟨rfl, ?_⟩
  have hfile := hconnects.hosts.place hq
  rw [hentry, Option.some.injEq, Entry.file.injEq] at hfile
  obtain ⟨⟨n, place⟩, memory⟩ := c
  obtain ⟨m, place'⟩ := h
  simp_all

/-- **Beginning a transaction** changes nothing in the database. -/
theorem lock_turns (hw : w.IsSound) (hh : w.Hosts h) {path : Text} (hpath : w.IsPathTo path h)
    (mode : LockMode) : Minds w h (w.lock path mode).1 := by
  unfold lock
  cases hconnect : w.connect path with
  | error e => exact (ChangesOnly.refl hw).minds w.locks
  | ok r =>
  obtain ⟨v, c⟩ := r
  obtain ⟨rfl, rfl⟩ := connect_of_isPathTo hw hh hpath hconnect
  have hspans := (isFrame_bounded c.handle fun _ => False).beginLock (w := v) rfl mode
  simp only
  cases hturn : v.beginLock c mode with
  | mk v' c' result =>
  rw [hturn] at hspans
  have hhandle : c'.handle = c.handle := hspans.connection
  have hbound : v.ChangesOnly c.handle.IsBeside (fun _ => False) v' := hspans.world hw hh
  cases result with
  | error f =>
    have hreleased : v'.ChangesOnly c.handle.IsBeside (fun _ => False) (v'.releaseLog c') :=
      hhandle ▸ releaseLog_bounded (hbound.sound hw) (hhandle.symm ▸ hh.after hbound)
    exact (hbound.trans hreleased).minds (v'.releaseLog c').locks
  | ok seen => exact hbound.minds _

/-- **Ending a transaction** on a database changes nothing in it. -/
theorem unlock_turns (hw : w.IsSound) (hh : w.Hosts h) {path : Text}
    (hlocks : ∀ l ∈ w.locks, l.holder = some path → l.handle = h) :
    Minds w h (w.unlock path) := by
  unfold unlock
  cases hfind : w.locks.find? (·.holder = some path) with
  | none => exact (ChangesOnly.refl hw).minds w.locks
  | some l =>
    obtain rfl := hlocks l (List.mem_of_find?_eq_some hfind)
      (by simpa using List.find?_some hfind)
    have hfreed : World.IsSound { w with locks := w.locks.filter (·.holder ≠ some path) } ∧
        World.Hosts { w with locks := w.locks.filter (·.holder ≠ some path) } l.handle :=
      ⟨⟨hw.tree, hw.cwd⟩, ⟨hh.number, hh.place⟩⟩
    simp only
    generalize hv : (if l.hasUndo then dropUndo
        { w with locks := w.locks.filter (·.holder ≠ some path) } l.handle
      else { w with locks := w.locks.filter (·.holder ≠ some path) }) = v
    have hdropped : ChangesOnly l.handle.IsBeside (fun _ => False)
        { w with locks := w.locks.filter (·.holder ≠ some path) } v := by
      rw [← hv]
      split
      · exact dropUndo_bounded hfreed.1 hfreed.2 fun _ h => .inl h
      · exact .refl hfreed.1
    have hreleased : v.ChangesOnly l.handle.IsBeside (fun _ => False)
        (v.releaseLog { handle := l.handle, memory := { isLogging := l.isLogging } }) :=
      releaseLog_bounded (c := { handle := l.handle, memory := { isLogging := l.isLogging } })
        (hdropped.sound hfreed.1) (hfreed.2.after hdropped)
    have hall := hdropped.trans hreleased
    exact ⟨hall.disk, hall.cwd, hall.connections⟩

end World

end CompileJournal
