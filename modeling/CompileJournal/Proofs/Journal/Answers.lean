import CompileJournal.Proofs.Journal.Sharing

/-!
# How a statement ends

On a tidy database a statement can end in few ways, and each has one cause: the table and the locks
at that moment.  There is one exception, for which the connection's past matters.  A connection that
found the table missing remembers that, and as long as it may not read it goes by what it
remembers: it then misses the table where another one would meet the lock.

Only a change that is kept leaves anything in the world.

* `Connection.IsBlind`, `Denies`: the causes for which a statement gets no rows;
* `readRows_image`: reading;
* `Accepts`, `putRow_image`: adding a row;
* `makeTable_shares`, `dropTable_shares`: making and removing the table.
-/

namespace CompileJournal

/-- The table was missing when the connection looked for it, and the statement has not been
understood since. -/
def Connection.IsBlind (c : Connection) (q : Query) : Prop :=
  q ∉ c.memory.ready ∧ ∃ s, c.memory.schema = some s ∧ s.hasTable = false

namespace World

variable {w w' : World} {h : Handle} {c : Connection} {i : Image} {q : Query} {α β : Type}

/-! ## 1. Understanding a statement -/

/-- An access that leaves the world as it is, and remembers what is there. -/
structure Rests (w : World) (c : Connection) (t : Turn α) : Prop where
  world : t.world = w
  handle : t.connection.handle = c.handle
  agrees : t.connection.memory.Agrees (w.content c.handle)

theorem remember_rests {m : Memory} (hm : m.Agrees (w.content c.handle))
    (r : Except DatabaseFault α) : Rests w c ⟨w, c.remember m, r⟩ :=
  ⟨rfl, rfl, hm⟩

theorem Shares.still (h : Shares w c) (r : Except DatabaseFault α) : Rests w c ⟨w, c, r⟩ :=
  ⟨rfl, rfl, h.agrees⟩

theorem Rests.ends {t : Turn α} (h : Rests w c t) (r : Except DatabaseFault β) :
    Rests w c ⟨t.world, t.connection, r⟩ :=
  ⟨h.world, h.handle, h.agrees⟩

theorem Rests.shares {t : Turn α} (h : Rests w c t) (hs : Shares w c) : Shares w t.connection :=
  ⟨hs.sound, h.handle ▸ hs.hosts, h.handle ▸ hs.tidy, h.handle.symm ▸ h.agrees⟩

theorem Rests.trans {t : Turn α} {t' : Turn β} (h : Rests w c t)
    (h' : Rests w t.connection t') : Rests w c t' :=
  ⟨h'.world, h'.handle.trans h.handle, h.handle ▸ h'.agrees⟩

/-- Why a statement gets no rows from a database that holds the image `i`. -/
inductive Denies (w : World) (c : Connection) (q : Query) (i : Image) : DatabaseFault → Prop
  /-- The database is closed off. -/
  | locked (hclosed : w.isClosedOff c.handle.file = true) (hsees : ¬c.IsBlind q) :
      Denies w c q i .locked
  /-- It is closed off, and the connection goes by what it remembers. -/
  | blind (hclosed : w.isClosedOff c.handle.file = true) (hblind : c.IsBlind q) :
      Denies w c q i .noTable
  /-- The table is missing. -/
  | missing (hopen : w.isClosedOff c.handle.file = false) (hnone : i.table = none) :
      Denies w c q i .noTable

/-- What is remembered of the schema once it was read. -/
def readMemory (c : Connection) (i : Image) : Memory :=
  { c.memory.see (.database i) with schema := some (Image.schema (some i)) }

theorem readMemory_agrees (h : Shares w c) (hc : w.content c.handle = .database i) :
    (readMemory c i).Agrees (.database i) := by
  have hagrees := h.agrees
  rw [hc] at hagrees
  exact hagrees.see.1.withSchema

theorem readSchema_image (h : Shares w c) (hc : w.content c.handle = .database i) :
    w.readSchema c = if w.isClosedOff c.handle.file then ⟨w, c, .error .locked⟩
      else ⟨w, c.remember (readMemory c i), .ok (Image.schema (some i))⟩ := by
  unfold readSchema
  rw [beginRead_eq h, hc]
  cases w.isClosedOff c.handle.file with
  | true => rfl
  | false => rfl

theorem learnFrom_of_table (w : World) (c : Connection) (q : Query) {s : Schema}
    (hs : s.hasTable = true) :
    w.learnFrom c q s = ⟨w, c.remember (c.memory.learn q), .ok ()⟩ := by
  rw [learnFrom, if_pos hs]

theorem learnFrom_of_none (w : World) (c : Connection) (q : Query) {s : Schema}
    (hs : s.hasTable = false) : w.learnFrom c q s = ⟨w, c, .error .noTable⟩ := by
  rw [learnFrom, if_neg (by simp [hs])]

/-- A statement that is understood anew, or not. -/
theorem learnAnew_image (h : Shares w c) (hc : w.content c.handle = .database i) (q : Query) :
    Rests w c (w.learnAnew c q) ∧
      (w.learnAnew c q).result =
        if w.isClosedOff c.handle.file then .error .locked
        else if i.table = none then .error .noTable else .ok () := by
  have hagrees : (readMemory c i).Agrees (w.content c.handle) := hc ▸ readMemory_agrees h hc
  unfold learnAnew
  rw [readSchema_image h hc]
  cases w.isClosedOff c.handle.file with
  | true => exact ⟨h.still _, rfl⟩
  | false =>
    simp only [Bool.false_eq_true, if_false]
    by_cases hnone : i.table = none
    · have hmissing : (Image.schema (some i)).hasTable = false := by simp [Image.schema, hnone]
      rw [learnFrom_of_none _ _ _ hmissing, if_pos hnone]
      exact ⟨remember_rests hagrees _, rfl⟩
    · have hthere : (Image.schema (some i)).hasTable = true := by
        simp [Image.schema, Option.isSome_iff_ne_none, hnone]
      rw [learnFrom_of_table _ _ _ hthere, if_neg hnone]
      exact ⟨remember_rests (hagrees.learn q) _, rfl⟩

/-- **A statement is understood** unless the table is missing, or somebody keeps the connection
from looking for it.  Whoever understands it in front of a lock is not blind. -/
theorem understand_image (h : Shares w c) (hc : w.content c.handle = .database i) (q : Query) :
    Rests w c (w.understand c q) ∧
      match (w.understand c q).result with
      | .ok () => c.IsBlind q → w.isClosedOff c.handle.file = false
      | .error f => Denies w c q i f := by
  unfold understand
  split
  · next hready => exact ⟨h.still _, fun hblind => absurd hready hblind.1⟩
  next hready =>
  cases hschema : c.memory.schema with
  | none =>
    have hsees : ¬c.IsBlind q := by
      rintro ⟨-, s, hs, -⟩
      rw [hschema] at hs
      exact absurd hs (by simp)
    obtain ⟨hrests, hresult⟩ := learnAnew_image h hc q
    refine ⟨hrests, ?_⟩
    simp only [hresult]
    cases hclosed : w.isClosedOff c.handle.file with
    | true => exact .locked hclosed hsees
    | false =>
      by_cases hnone : i.table = none
      · simp only [Bool.false_eq_true, if_false, if_pos hnone]
        exact .missing hclosed hnone
      · simp only [Bool.false_eq_true, if_false, if_neg hnone]
        exact fun _ => trivial
  | some s =>
  simp only
  cases htable : s.hasTable with
  | true =>
    rw [if_pos rfl, learnFrom_of_table _ _ _ htable]
    refine ⟨remember_rests (h.agrees.learn q) _, ?_⟩
    rintro ⟨-, s', hs', hfalse⟩
    rw [hschema, Option.some.injEq] at hs'
    rw [← hs', htable] at hfalse
    exact absurd hfalse (by simp)
  | false =>
    have hblind : c.IsBlind q := ⟨hready, s, hschema, htable⟩
    rw [if_neg (by simp), beginRead_eq h]
    cases hclosed : w.isClosedOff c.handle.file with
    | true => exact ⟨h.still _, .blind hclosed hblind⟩
    | false =>
      have hsee := h.agrees.see.1
      rw [hc] at hsee ⊢
      simp only [Bool.false_eq_true, if_false, Content.seen_database]
      split
      · -- The revision is the one that is remembered, so the table is still missing.
        next hrevision =>
        refine ⟨remember_rests (hc.symm ▸ hsee) _, .missing hclosed ?_⟩
        have hold := h.agrees.schema s hschema
        rw [hc] at hold
        rcases hold with rfl | hlt
        · simpa [Image.schema, Content.image?] using htable
        · exact absurd hlt (by simp only [Content.image?, hrevision]; exact Nat.lt_irrefl _)
      · have hs' : Shares w (c.remember (c.memory.see (.database i))) :=
          h.remember (hc.symm ▸ hsee)
        obtain ⟨hrests, hresult⟩ := learnAnew_image hs' hc q
        refine ⟨⟨hrests.world, hrests.handle, hrests.agrees⟩, ?_⟩
        have hopen : w.isClosedOff (c.remember (c.memory.see (.database i))).handle.file = false :=
          hclosed
        simp only [hresult, hopen, Bool.false_eq_true, if_false]
        by_cases hnone : i.table = none
        · simp only [if_pos hnone]
          exact .missing hclosed hnone
        · simp only [if_neg hnone]
          exact fun _ => trivial

/-! ## 2. Reading -/

/-- What is remembered once the rows were asked for. -/
theorem rowsOf_rests (h : Shares w c) (hc : w.content c.handle = .database i) (q : Query) :
    Rests w c (w.rowsOf c q (some i)) ∧
      (w.rowsOf c q (some i)).result = match i.table with
        | none => .error .noTable
        | some rows => .ok rows := by
  have hagrees : ({ c.memory with schema := some (Image.schema (some i)) } : Memory).Agrees
      (w.content c.handle) := by
    have hschema := h.agrees.withSchema
    rw [hc] at hschema ⊢
    exact hschema
  unfold rowsOf
  simp only [Option.bind_some]
  cases i.table with
  | none => exact ⟨remember_rests (hagrees.withReady _) _, rfl⟩
  | some rows => exact ⟨remember_rests hagrees _, rfl⟩

/-- **Reading gives the rows of the database**, unless the table is missing or somebody has closed
the database off. -/
theorem readRows_image (h : Shares w c) (hc : w.content c.handle = .database i) (q : Query) :
    Rests w c (w.readRows c q) ∧
      match (w.readRows c q).result with
      | .ok rows => w.isClosedOff c.handle.file = false ∧ i.table = some rows
      | .error f => Denies w c q i f := by
  obtain ⟨hrests, hresult⟩ := understand_image h hc q
  unfold readRows
  cases hturn : w.understand c q with
  | mk w₁ c₁ r =>
  rw [hturn] at hrests hresult
  obtain rfl : w₁ = w := hrests.world
  have hhandle : c₁.handle = c.handle := hrests.handle
  have h₁ : Shares w₁ c₁ := hrests.shares h
  have hc₁ : w₁.content c₁.handle = .database i := hhandle ▸ hc
  cases r with
  | error f => exact ⟨hrests.ends _, hresult⟩
  | ok u =>
  simp only [beginRead_eq h₁, hhandle]
  cases hclosed : w₁.isClosedOff c.handle.file with
  | true =>
    refine ⟨hrests.ends _, .locked hclosed fun hblind => ?_⟩
    have hopen := hresult hblind
    rw [hclosed] at hopen
    exact absurd hopen (by simp)
  | false =>
    have hread : Rests w₁ c₁ (⟨w₁, c₁.remember (c₁.memory.see (w₁.content c₁.handle)),
        .ok (some i)⟩ : Turn (Option Image)) := remember_rests h₁.agrees.see.1 _
    obtain ⟨hrows, hrowsResult⟩ := rowsOf_rests (hread.shares h₁) hc₁ q
    rw [← hhandle]
    simp only [Bool.false_eq_true, if_false, hc₁, Content.seen_database] at hread hrows ⊢
    refine ⟨(hrests.trans hread).trans hrows, ?_⟩
    rw [hc₁] at hrowsResult
    rw [hrowsResult]
    cases htable : i.table with
    | none => exact .missing hclosed htable
    | some rows => exact ⟨trivial, rfl⟩

/-! ## 3. Changing -/

/-- A world in which a change was tried: there is no trace of it, or, if nobody else used the
database, it holds a new image, and that is all. -/
def Revises (w : World) (h : Handle) (P : Image → Prop) (w' : World) : Prop :=
  w.ChangesOnly (fun _ => False) (fun _ => False) w' ∨
    w.isShared h.file = false ∧ w.ChangesOnly (fun _ => False) (· = h.file) w' ∧
      ∃ j, P j ∧ (w.content h).Advances j ∧ w'.content h = .database j

theorem Revises.bound {P : Image → Prop} (h' : w.Revises h P w') :
    w.ChangesOnly (fun _ => False) (· = h.file) w' := by
  rcases h' with hsame | ⟨-, hbound, -⟩
  · exact hsame.mono (fun _ h => h) fun _ h => h.elim
  · exact hbound

theorem Revises.mono {P Q : Image → Prop} (h' : w.Revises h P w') (hPQ : ∀ j, P j → Q j) :
    w.Revises h Q w' := by
  rcases h' with hsame | ⟨halone, hbound, j, hj, hrest⟩
  · exact .inl hsame
  · exact .inr ⟨halone, hbound, j, hPQ j hj, hrest⟩

/-- The turn of a change that was tried. -/
structure Attempts (w : World) (c : Connection) (P : Image → Prop) (t : Turn α) : Prop where
  handle : t.connection.handle = c.handle
  agrees : t.connection.memory.Agrees (t.world.content c.handle)
  revises : w.Revises c.handle P t.world

/-- Content without a trace of a change. -/
theorem content_of_still (hh : w.Hosts h)
    (hb : w.ChangesOnly (fun _ => False) (fun _ => False) w') : w'.content h = w.content h :=
  hb.disk.content hh.number id fun _ h => h.elim

/-- A change that was given up before it began to be kept. -/
theorem Rests.attempts {t : Turn α} (h : Rests w c t) (hs : Shares w c) (P : Image → Prop)
    (r : Except DatabaseFault β) : Attempts w c P ⟨t.world, t.connection, r⟩ := by
  obtain ⟨world, connection, result⟩ := t
  obtain rfl : world = w := h.world
  exact ⟨h.handle, h.agrees, .inl (.refl hs.sound)⟩

/-- What was only read before makes no difference. -/
theorem Attempts.after {P : Image → Prop} {t : Turn α} {t' : Turn β} (h : Rests w c t)
    (h' : Attempts w t.connection P t') : Attempts w c P t' := by
  have hsame := h.handle
  exact ⟨h'.handle.trans hsame, hsame ▸ h'.agrees, hsame ▸ h'.revises⟩

/-- A change that came to be kept. -/
theorem Keeps.attempts {j : Image} {t : Turn Unit} (hk : Keeps w c j t) (hs : Shares w c)
    (hj : (w.content c.handle).Advances j) {P : Image → Prop} (hP : P j) : Attempts w c P t := by
  cases hshared : w.isShared c.handle.file with
  | true =>
    obtain ⟨-, hconnection, hstill⟩ := hk.refused hshared
    refine ⟨congrArg Connection.handle hconnection, ?_, .inl hstill⟩
    rw [hconnection, content_of_still hs.hosts hstill]
    exact hs.agrees
  | false =>
    obtain ⟨-, hconnection, hbound, hcontent⟩ := hk.kept hshared
    refine ⟨by rw [hconnection, Connection.remember], ?_,
      .inr ⟨hshared, hbound, j, hP, hj, hcontent⟩⟩
    rw [hconnection, hcontent]
    exact .wrote hs.agrees.isLogging j

/-- How adding a row to a database that holds the image `i` can end. -/
inductive Accepts (w : World) (c : Connection) (i : Image) : Except DatabaseFault Unit → Prop
  | denied {f : DatabaseFault} (hdenies : Denies w c .put i f) : Accepts w c i (.error f)
  /-- Somebody else uses the database.  If the table is missing, only a claim comes before that. -/
  | refused (hopen : w.isClosedOff c.handle.file = false)
      (hshared : w.isShared c.handle.file = true)
      (hclaimed : i.table = none → w.isClaimed c.handle.file = true) :
      Accepts w c i (.error .locked)
  | kept (halone : w.isShared c.handle.file = false) (htable : i.table.isSome = true) :
      Accepts w c i (.ok ())

/-- The images that adding a row makes of an image. -/
def IsPut (i : Image) (r : Row) (j : Image) : Prop :=
  ∃ rows, i.table = some rows ∧ j = i.withRows true (rows.put r)

/-- A turn in which a row was to be added to a database that holds the image `i`. -/
structure PutsRow (w : World) (c : Connection) (i : Image) (r : Row) (t : Turn Unit) : Prop where
  attempts : Attempts w c (IsPut i r) t
  ends : Accepts w c i t.result
  done : t.result = .ok () → ∃ j, IsPut i r j ∧ t.world.content c.handle = .database j

/-- Nothing was written. -/
theorem Rests.putsRow {t : Turn α} (h : Rests w c t) (hs : Shares w c) {f : DatabaseFault}
    (hends : Accepts w c i (.error f)) (r : Row) :
    PutsRow w c i r ⟨t.world, t.connection, .error f⟩ :=
  ⟨h.attempts hs _ _, hends, fun hok => absurd hok (by simp)⟩

/-- The rows with the new one came to be kept, after there was only reading. -/
theorem Keeps.putsRow {t : Turn α} {t' : Turn Unit} {r : Row} {rows : Table} (hrests : Rests w c t)
    (hs : Shares w c) (hc : w.content c.handle = .database i) (htable : i.table = some rows)
    (hopen : w.isClosedOff c.handle.file = false)
    (hk : Keeps w t.connection (i.withRows true (rows.put r)) t') : PutsRow w c i r t' := by
  have hhandle := hrests.handle
  have hadvances : (w.content t.connection.handle).Advances (i.withRows true (rows.put r)) := by
    rw [hhandle, hc]
    exact Image.withRows_advances htable _
  have hput : IsPut i r (i.withRows true (rows.put r)) := ⟨rows, htable, rfl⟩
  refine ⟨(hk.attempts (hrests.shares hs) hadvances hput).after hrests, ?_, fun hok => ?_⟩
  · cases hshared : w.isShared c.handle.file with
    | true =>
      rw [(hk.refused (hhandle ▸ hshared)).1]
      refine .refused hopen hshared fun hnone => ?_
      rw [htable] at hnone
      exact absurd hnone (by simp)
    | false =>
      rw [(hk.kept (hhandle ▸ hshared)).1]
      exact .kept hshared (by rw [htable]; rfl)
  · cases hshared : w.isShared c.handle.file with
    | true =>
      rw [(hk.refused (hhandle ▸ hshared)).1] at hok
      exact absurd hok (by simp)
    | false => exact ⟨_, hput, hhandle ▸ (hk.kept (hhandle ▸ hshared)).2.2.2⟩

/-- **Adding a row** puts it into the rows of the database if the table is there and nobody else
uses the database, and otherwise leaves no trace. -/
theorem putRow_image (h : Shares w c) (hc : w.content c.handle = .database i)
    (hroom : HasRoom c.handle) (r : Row) : PutsRow w c i r (w.putRow c r) := by
  obtain ⟨hrests, hresult⟩ := understand_image h hc .put
  unfold putRow
  cases hturn : w.understand c .put with
  | mk w₁ c₁ result =>
  rw [hturn] at hrests hresult
  obtain rfl : w₁ = w := hrests.world
  have hhandle : c₁.handle = c.handle := hrests.handle
  have h₁ : Shares w₁ c₁ := hrests.shares h
  cases result with
  | error f => exact hrests.putsRow h (.denied hresult) r
  | ok u =>
  simp only [beginWrite_image h₁ (hhandle ▸ hc), hhandle, Bool.false_and, Bool.or_false]
  cases hclosed : w₁.isClosedOff c.handle.file with
  | true =>
    refine hrests.putsRow h (.denied (.locked hclosed fun hblind => ?_)) r
    have hopen := hresult hblind
    rw [hclosed] at hopen
    exact absurd hopen (by simp)
  | false =>
  have hread : Rests w₁ c₁ (⟨w₁, c₁.remember (c₁.memory.see (w₁.content c₁.handle)),
      .ok (some i)⟩ : Turn (Option Image)) := remember_rests h₁.agrees.see.1 _
  have hread' := hrests.trans hread
  rw [hhandle] at hread hread'
  cases hclaimed : w₁.isClaimed c.handle.file with
  | true =>
    exact hread'.putsRow h
      (.refused hclosed (isShared_of_isClaimed hclaimed) fun _ => hclaimed) r
  | false =>
  obtain ⟨hrows, hrowsResult⟩ := rowsOf_rests (q := .put) (hread'.shares h) (hread'.handle ▸ hc)
  simp only [Bool.false_eq_true, if_false]
  cases hturn₂ : w₁.rowsOf (c₁.remember (c₁.memory.see (w₁.content c.handle))) .put (some i) with
  | mk w₂ c₂ result₂ =>
  rw [hturn₂] at hrows hrowsResult
  have hrows' := hread'.trans hrows
  obtain rfl : w₂ = w₁ := hrows.world
  have h₃ : Shares w₂ c₂ := hrows'.shares h
  have hhandle₂ : c₂.handle = c.handle := hrows'.handle
  cases htable : i.table with
  | none =>
    rw [htable] at hrowsResult
    obtain rfl : result₂ = .error .noTable := hrowsResult
    exact hrows'.putsRow h (.denied (.missing hclosed htable)) r
  | some rows =>
    rw [htable] at hrowsResult
    obtain rfl : result₂ = .ok rows := hrowsResult
    have hlogging : c₂.memory.isLogging = false := h₃.agrees.isLogging
    simp only [hlogging, Bool.not_false]
    exact (keep_image h₃ (hhandle₂ ▸ hc) (hhandle₂ ▸ hroom) _).putsRow hrows' h hc htable hclosed

/-! ## 4. Making and removing the table -/

/-- Nothing is seen of a file that is neither blank nor a database. -/
theorem seen_cases (c : Content) :
    (c.seen = .ok c.image? ∧ (c.isBlank = true ∨ ∃ i, c = .database i)) ∨
      c.seen = .error .notADatabase ∧ c.image? = none := by
  cases c with
  | database i => exact .inl ⟨rfl, .inr ⟨i, rfl⟩⟩
  | text t =>
    cases hblank : (Content.text t).isBlank with
    | true => exact .inl ⟨by simp [Content.seen, hblank, Content.image?], .inl rfl⟩
    | false => exact .inr ⟨by simp [Content.seen, hblank], rfl⟩

/-- Reading the schema of a tidy database. -/
theorem readSchema_shares (h : Shares w c) :
    Rests w c (w.readSchema c) ∧
      ((∃ f, (w.readSchema c).result = .error f ∧
          (f = .locked → w.isClosedOff c.handle.file = true)) ∨
        (w.readSchema c).result = .ok (Image.schema (w.content c.handle).image?) ∧
          w.isClosedOff c.handle.file = false ∧
          ((w.content c.handle).isBlank = true ∨ ∃ i, w.content c.handle = .database i)) := by
  unfold readSchema
  rw [beginRead_eq h]
  cases hclosed : w.isClosedOff c.handle.file with
  | true => exact ⟨h.still _, .inl ⟨.locked, rfl, fun _ => rfl⟩⟩
  | false =>
  have hsee := h.agrees.see.1
  simp only [Bool.false_eq_true, if_false]
  rcases seen_cases (w.content c.handle) with ⟨hseen, hfits⟩ | ⟨hseen, -⟩
  · rw [hseen]
    exact ⟨remember_rests hsee.withSchema _, .inr ⟨rfl, trivial, hfits⟩⟩
  · rw [hseen]
    exact ⟨remember_rests hsee _, .inl ⟨.notADatabase, rfl, fun h => absurd h (by simp)⟩⟩

/-- The part of making or removing the table that comes after the schema was read. -/
def writeTable (w : World) (c : Connection) (table : Option Table) : Turn Unit :=
  match w.beginWrite c false with
  | ⟨w, c, .error f⟩ => ⟨w, c, .error f⟩
  | ⟨w, c, .ok seen⟩ => w.keep c seen (Image.withTable seen table)

/-- The images that making or removing the table makes of a content. -/
def IsRemade (h : Handle) (c : Content) (table : Option Table) (j : Image) : Prop :=
  HasRoom h ∧ j = Image.withTable c.image? table

/-- A turn in which the table was to be made or removed: it is as it should be, or there is no
trace of the attempt. -/
structure WritesTable (w : World) (c : Connection) (table : Option Table) (t : Turn Unit) :
    Prop where
  attempts : Attempts w c (IsRemade c.handle (w.content c.handle) table) t
  done : t.result = .ok () →
    t.world.content c.handle = .database (Image.withTable (w.content c.handle).image? table)
  locked : t.result = .error .locked → w.isShared c.handle.file = true

theorem WritesTable.after {table : Option Table} {t : Turn α} {t' : Turn Unit}
    (h : Rests w c t) (h' : WritesTable w t.connection table t') : WritesTable w c table t' := by
  obtain ⟨hattempts, hdone, hlocked⟩ := h'
  have hattempts' := Attempts.after h hattempts
  rw [h.handle] at hattempts' hdone hlocked
  exact ⟨hattempts', hdone, hlocked⟩

/-- Nothing was written. -/
theorem Rests.writesTable {t : Turn α} (h : Rests w c t) (hs : Shares w c) (table : Option Table)
    {f : DatabaseFault} (hlocked : f = .locked → w.isShared c.handle.file = true) :
    WritesTable w c table ⟨t.world, t.connection, .error f⟩ :=
  ⟨h.attempts hs _ _, fun hok => absurd hok (by simp), fun herror =>
    hlocked (Except.error.inj herror)⟩

/-- The new image came to be kept. -/
theorem Keeps.writesTable {table : Option Table} {t : Turn Unit}
    (hk : Keeps w c (Image.withTable (w.content c.handle).image? table) t) (hs : Shares w c)
    (hroom : HasRoom c.handle) (hadvances : (w.content c.handle).Advances
      (Image.withTable (w.content c.handle).image? table)) : WritesTable w c table t := by
  refine ⟨hk.attempts hs hadvances ⟨hroom, rfl⟩, fun hok => ?_, fun herror => ?_⟩
  · cases hshared : w.isShared c.handle.file with
    | true =>
      rw [(hk.refused hshared).1] at hok
      exact absurd hok (by simp)
    | false => exact (hk.kept hshared).2.2.2
  · by_contra hfree
    rw [Bool.not_eq_true] at hfree
    rw [(hk.kept hfree).1] at herror
    exact absurd herror (by simp)

/-- The first table of a blank file needs room for the undo file. -/
theorem writeTable_of_isBlank (h : Shares w c) (hopen : w.isClosedOff c.handle.file = false)
    (hblank : (w.content c.handle).isBlank = true) (table : Option Table) :
    WritesTable w c table (w.writeTable c table) := by
  have hsee : Rests w c (⟨w, c.remember (c.memory.see (w.content c.handle)),
      .ok none⟩ : Turn (Option Image)) := remember_rests h.agrees.see.1 _
  have hs := hsee.shares h
  have hnone : (w.content c.handle).image? = none := by
    cases hcontent : w.content c.handle with
    | text t => rfl
    | database i =>
      rw [hcontent] at hblank
      exact absurd hblank (by simp [Content.isBlank])
  have hseen : (w.content c.handle).seen = .ok none := by
    simp [Content.seen, hblank]
  have hlogging : (c.memory.see (w.content c.handle)).isLogging = false := hs.agrees.isLogging
  have hhandle : (c.remember (c.memory.see (w.content c.handle))).handle = c.handle := rfl
  have hmemory : (c.remember (c.memory.see (w.content c.handle))).memory =
    c.memory.see (w.content c.handle) := rfl
  unfold writeTable beginWrite
  rw [beginRead_eq h]
  simp only [hopen, Bool.false_eq_true, if_false, hseen, hlogging, hhandle, hmemory,
    Bool.false_and, Bool.or_false, Option.isSome_none]
  cases hclaimed : w.isClaimed c.handle.file with
  | true => exact hsee.writesTable h table fun _ => isShared_of_isClaimed hclaimed
  | false =>
  simp only [Bool.false_eq_true, if_false]
  rcases openUndo_blank h.sound h.hosts h.tidy hclaimed hblank with ⟨w', hundo, hroom⟩ |
    ⟨hundo, -⟩
  · rw [hundo]
    have hkeeps := keep_blank hs hclaimed hundo (Image.withTable none table)
    rw [← hnone] at hkeeps
    have hadvances := Image.withTable_advances (.inl hblank) table
    simp only
    rw [← hnone]
    exact (hkeeps.writesTable hs hroom hadvances).after hsee
  · rw [hundo]
    exact hsee.writesTable h table fun heq => absurd heq (by simp)

theorem writeTable_of_database (h : Shares w c) (hopen : w.isClosedOff c.handle.file = false)
    (hc : w.content c.handle = .database i) (hroom : HasRoom c.handle) (table : Option Table) :
    WritesTable w c table (w.writeTable c table) := by
  have hsee : Rests w c (⟨w, c.remember (c.memory.see (w.content c.handle)),
      .ok none⟩ : Turn (Option Image)) := remember_rests h.agrees.see.1 _
  unfold writeTable
  rw [beginWrite_image h hc]
  simp only [hopen, Bool.false_eq_true, if_false, Bool.false_and, Bool.or_false]
  cases hclaimed : w.isClaimed c.handle.file with
  | true => exact hsee.writesTable h table fun _ => isShared_of_isClaimed hclaimed
  | false =>
    have hs := hsee.shares h
    have hkeeps := keep_image hs hc hroom (Image.withTable (some i) table)
    have himage : (w.content c.handle).image? = some i := by rw [hc]; rfl
    have hadvances := Image.withTable_advances (.inr ⟨i, hc⟩) table
    rw [← himage] at hkeeps ⊢
    exact (hkeeps.writesTable hs hroom hadvances).after hsee

/-- **The table is made or removed** if nobody else uses the database and its undo file can be
opened. -/
theorem writeTable_shares {t : Turn α} (hrests : Rests w c t) (hs : Shares w c)
    (hopen : w.isClosedOff c.handle.file = false)
    (hfits : (w.content c.handle).isBlank = true ∨ ∃ i, w.content c.handle = .database i)
    (hroom : ∀ i, w.content c.handle = .database i → HasRoom c.handle) (table : Option Table) :
    WritesTable w c table (w.writeTable t.connection table) := by
  have h := hrests.shares hs
  have hhandle := hrests.handle
  rw [← hhandle] at hopen hfits hroom
  rcases hfits with hblank | ⟨i, hi⟩
  · exact (writeTable_of_isBlank h hopen hblank table).after hrests
  · exact (writeTable_of_database h hopen hi (hroom i hi) table).after hrests

theorem makeTable_of_refused {w₁ : World} {c₁ : Connection} {f : DatabaseFault}
    (h : w.readSchema c = ⟨w₁, c₁, .error f⟩) : w.makeTable c = ⟨w₁, c₁, .error f⟩ := by
  rw [makeTable, h]

theorem makeTable_of_read {w₁ : World} {c₁ : Connection} {s : Schema}
    (h : w.readSchema c = ⟨w₁, c₁, .ok s⟩) : w.makeTable c =
      if s.hasTable then ⟨w₁, c₁, .ok ()⟩ else w₁.writeTable c₁ (some []) := by
  rw [makeTable, h]
  rfl

theorem dropTable_of_refused {w₁ : World} {c₁ : Connection} {f : DatabaseFault}
    (h : w.readSchema c = ⟨w₁, c₁, .error f⟩) : w.dropTable c = ⟨w₁, c₁, .error f⟩ := by
  rw [dropTable, h]

theorem dropTable_of_read {w₁ : World} {c₁ : Connection} {s : Schema}
    (h : w.readSchema c = ⟨w₁, c₁, .ok s⟩) : w.dropTable c =
      if !s.hasTable then ⟨w₁, c₁, .error .noTable⟩ else w₁.writeTable c₁ none := by
  rw [dropTable, h]
  rfl

/-- **Making the table** of a tidy database: it is there afterwards, with the rows that were there,
or the attempt has left no trace. -/
theorem makeTable_shares (h : Shares w c)
    (hroom : ∀ i, w.content c.handle = .database i → HasRoom c.handle) :
    Attempts w c (IsRemade c.handle (w.content c.handle) (some [])) (w.makeTable c) ∧
      ((w.makeTable c).result = .ok () → ∃ j,
        (w.makeTable c).world.content c.handle = .database j ∧
          j.table = some (((w.content c.handle).image?.bind Image.table).getD [])) ∧
      ((w.makeTable c).result = .error .locked → w.isShared c.handle.file = true) := by
  obtain ⟨hrests, hschema⟩ := readSchema_shares h
  cases hturn : w.readSchema c with
  | mk w₁ c₁ result =>
  rw [hturn] at hrests hschema
  obtain rfl : w₁ = w := hrests.world
  rcases hschema with ⟨f, hresult, hlocked⟩ | ⟨hresult, hopen, hfits⟩
  · obtain rfl : result = .error f := hresult
    rw [makeTable_of_refused hturn]
    refine ⟨hrests.attempts h _ _, fun hok => absurd hok (by simp), fun herror => ?_⟩
    obtain rfl : f = .locked := Except.error.inj herror
    exact isShared_of_isClaimed (isClaimed_of_isClosedOff (hlocked rfl))
  · obtain rfl : result = .ok _ := hresult
    rw [makeTable_of_read hturn]
    cases htable : (Image.schema (w₁.content c.handle).image?).hasTable with
    | true =>
      rw [if_pos rfl]
      refine ⟨hrests.attempts h _ _, fun _ => ?_, fun herror => absurd herror (by simp)⟩
      rw [schema_hasTable] at htable
      obtain ⟨rows, hrows⟩ := Option.isSome_iff_exists.mp htable
      obtain ⟨i, himage, hi⟩ := Option.bind_eq_some_iff.mp hrows
      exact ⟨i, Content.eq_database_of_image himage, by rw [himage, Option.bind_some, hi]; rfl⟩
    | false =>
      rw [if_neg (by simp)]
      rw [schema_hasTable, Option.isSome_eq_false_iff, Option.isNone_iff_eq_none] at htable
      have hwrites := writeTable_shares hrests h hopen hfits hroom (some [])
      exact ⟨hwrites.attempts, fun hok => ⟨_, hwrites.done hok, by rw [htable, withTable_table]; rfl⟩,
        hwrites.locked⟩

/-- If the table is there, only a lock that closes the database off can be in the way of making
it. -/
theorem makeTable_image (h : Shares w c) (hc : w.content c.handle = .database i)
    (htable : i.table.isSome = true) : (w.makeTable c).result =
      if w.isClosedOff c.handle.file then .error .locked else .ok () := by
  unfold makeTable
  rw [readSchema_image h hc]
  cases w.isClosedOff c.handle.file with
  | true => rfl
  | false => simp [Image.schema, htable]

/-- Removing the table of a tidy database leaves no trace, or a database without it. -/
theorem dropTable_shares (h : Shares w c)
    (hroom : ∀ i, w.content c.handle = .database i → HasRoom c.handle) :
    Attempts w c (IsRemade c.handle (w.content c.handle) none) (w.dropTable c) := by
  obtain ⟨hrests, hschema⟩ := readSchema_shares h
  cases hturn : w.readSchema c with
  | mk w₁ c₁ result =>
  rw [hturn] at hrests hschema
  obtain rfl : w₁ = w := hrests.world
  rcases hschema with ⟨f, hresult, -⟩ | ⟨hresult, hopen, hfits⟩
  · obtain rfl : result = .error f := hresult
    rw [dropTable_of_refused hturn]
    exact hrests.attempts h _ _
  · obtain rfl : result = .ok _ := hresult
    rw [dropTable_of_read hturn]
    split
    · exact hrests.attempts h _ _
    · exact (writeTable_shares hrests h hopen hfits hroom none).attempts

/-- A file that is no database has no statement that runs, and stays as it is. -/
theorem understand_fresh (h : Shares w c) (hfresh : c.memory = {})
    (hnone : (w.content c.handle).image?.bind Image.table = none) (q : Query) :
    Rests w c (w.understand c q) ∧ (w.understand c q).result ≠ .ok () := by
  obtain ⟨hrests, hschema⟩ := readSchema_shares h
  have hunderstand : w.understand c q = w.learnAnew c q := by
    simp [understand, hfresh]
  rw [hunderstand]
  unfold learnAnew
  cases hturn : w.readSchema c with
  | mk w₁ c₁ result =>
  rw [hturn] at hrests hschema
  rcases hschema with ⟨f, hresult, -⟩ | ⟨hresult, -, -⟩
  · obtain rfl : result = .error f := hresult
    exact ⟨hrests.ends _, by simp⟩
  · obtain rfl : result = .ok _ := hresult
    have hmissing : (Image.schema (w.content c.handle).image?).hasTable = false := by
      rw [schema_hasTable, hnone]
      rfl
    simp only [learnFrom_of_none _ _ _ hmissing]
    exact ⟨hrests.ends _, by simp⟩

end World

end CompileJournal
