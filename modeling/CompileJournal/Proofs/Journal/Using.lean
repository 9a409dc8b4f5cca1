import CompileJournal.Proofs.Journal.Orderly

/-!
# Stores in an orderly world

Every operation of a store is one turn of its connection.  In an orderly world the turn tries at
most one change of one database, so the world is orderly afterwards too, the store goes on, and
nobody else notices anything but the new image.  What an operation answers is a matter of three
things: whether the store is open, whether its database has the table, and which transactions from
outside are on the file.

* `Store.IsOn`, `Store.Uses`: a store on its database, and what an operation leaves;
* `put_isOn`, `readRows_isOn`, `close_orderly`: the operations of a store.
-/

namespace CompileJournal

namespace World

variable {D : Place → Prop} {w w' v : World} {g h : Handle} {c : Connection} {p : Place}

/-! ## 1. Locks in an orderly world -/

/-- No transaction from outside uses the file of a handle. -/
def IsLeftAlone (w : World) (h : Handle) : Prop :=
  ∀ l ∈ w.locks, l.handle.file = h.file → l.mode = .deferred

/-- No transaction from outside has closed off the file of a handle. -/
def IsReadable (w : World) (h : Handle) : Prop :=
  ∀ l ∈ w.locks, l.handle.file = h.file → l.mode ≠ .exclusive

theorem IsLeftAlone.isReadable (ha : w.IsLeftAlone h) : w.IsReadable h := by
  intro l hl hfile
  rw [ha l hl hfile]
  simp

theorem IsOrderly.isShared_eq_false (ho : w.IsOrderly D) :
    w.isShared h.file = false ↔ w.IsLeftAlone h := by
  refine ⟨fun halone l hl hfile => deferred_of_not_shared halone hl hfile, fun halone => ?_⟩
  rw [isShared, Bool.or_eq_false_iff]
  refine ⟨List.any_eq_false.mpr fun l hl => ?_, List.any_eq_false.mpr fun c? hc => ?_⟩
  · by_cases hfile : l.handle.file = h.file
    · simp [halone l hl hfile]
    · simp [hfile]
  · cases c? with
    | none => simp
    | some c => simp [(ho.connection hc).2.isLogging]

theorem IsOrderly.isClosedOff_eq_false (ho : w.IsOrderly D) :
    w.isClosedOff h.file = false ↔ w.IsReadable h := by
  rw [isClosedOff, List.any_eq_false]
  refine forall₂_congr fun l hl => ?_
  simp [(ho.lock hl).2.1]

/-! ## 2. Exchanging a connection -/

variable {s : Store}

theorem IsOrderly.setConnection (ho : w.IsOrderly D) (hown : w.Owns D c.handle)
    (hagrees : c.memory.Agrees (w.content c.handle)) :
    (s.setConnection w (some c)).IsOrderly D := by
  refine ho.withConnections fun {c'} hc' => ?_
  rcases List.mem_or_eq_of_mem_set hc' with hc' | hc'
  · exact ho.connection hc'
  · rw [Option.some.inj hc']
    exact ⟨hown, hagrees⟩

theorem IsOrderly.dropConnection (ho : w.IsOrderly D) : (s.setConnection w none).IsOrderly D := by
  refine ho.withConnections fun {c'} hc' => ho.connection ?_
  rcases List.mem_or_eq_of_mem_set hc' with hc' | hc'
  · exact hc'
  · exact absurd hc' (by simp)

end World

namespace Store

open World (Attempts Owns Rests Revises IsPut Denies Accepts)

variable {D : Place → Prop} {w w' v : World} {g h : Handle} {c : Connection} {p : Place}
  {s t : Store} {q : Query} {α : Type} {P : Image → Prop}

/-! ## 3. A store on its database -/

/-- A store that is open on the file behind a handle, which holds a database. -/
structure IsOn (w : World) (s : Store) (h : Handle) : Prop where
  connection : ∃ c, s.connection? w = some c ∧ c.handle = h
  image : ∃ i, w.content h = .database i

/-- A world that is left by an operation of a store: at most its database has another image, and
its connection remembers other things. -/
structure Uses (w : World) (s : Store) (h : Handle) (w' : World) : Prop where
  connection : ∃ c, c.handle = h ∧ w'.connections = w.connections.set s.connection (some c)
  locks : w'.locks = w.locks
  cwd : w'.cwd = w.cwd
  revises : ∃ v, w.Revises h (fun _ => True) v ∧ v.disk = w'.disk

/-- A world in which every entry and every content is as it was. -/
def IsUntouched (w w' : World) : Prop :=
  w.disk.ChangesOnly (fun _ => False) (fun _ => False) w'.disk

theorem mem_of_connection? (hc : s.connection? w = some c) : some c ∈ w.connections := by
  rw [connection?, Option.join_eq_some_iff] at hc
  exact List.mem_of_getElem? hc

/-- A handle of the orderly world that a store is on. -/
theorem IsOn.owns (ho : w.IsOrderly D) (hs : s.IsOn w h) : w.Owns D h := by
  obtain ⟨⟨c, hc, rfl⟩, -⟩ := hs
  exact (ho.connection (mem_of_connection? hc)).1

/-- **A turn that tries a change leaves an orderly world**, in which the store goes on. -/
theorem use_orderly (ho : w.IsOrderly D) (hc : s.connection? w = some c)
    {f : World → Connection → Turn α} (ht : Attempts w c P (f w c))
    (hP : ∀ j, P j → IsMade c.handle j) :
    (s.use w f).1.IsOrderly D ∧ s.Uses w c.handle (s.use w f).1 := by
  have hown : w.Owns D c.handle := (ho.connection (mem_of_connection? hc)).1
  have hv := ho.revise hown ht.revises hP
  have hown' : (f w c).world.Owns D (f w c).connection.handle :=
    ht.handle.symm ▸ hown.revise ho.sound ht.revises hP hown
  have hagrees : (f w c).connection.memory.Agrees
      ((f w c).world.content (f w c).connection.handle) := ht.handle.symm ▸ ht.agrees
  have hbound := ht.revises.bound
  rw [use_eq hc]
  refine ⟨hv.setConnection hown' hagrees, ⟨(f w c).connection, ht.handle, ?_⟩, hbound.locks,
    hbound.cwd, (f w c).world, ht.revises.mono fun _ _ => trivial, rfl⟩
  rw [setConnection, hbound.connections]

namespace Uses

/-- A database stays one. -/
theorem image (hu : s.Uses w h w') (hw : w.IsSound) (hown : w.Owns D h) (hg : w.Owns D g)
    (hi : ∃ i, w.content g = .database i) : ∃ i, w'.content g = .database i := by
  obtain ⟨v, hr, hdisk⟩ := hu.revises
  have hcontent : w'.content g = v.content g := by rw [World.content, World.content, hdisk]
  rw [hcontent]
  rcases hr.content_cases hw hown hg with hsame | ⟨-, -, j, -, -, hj⟩
  · rwa [hsame]
  · exact ⟨j, hj⟩

theorem connection?_self (hu : s.Uses w h w') (hs : s.connection < w.connections.length) :
    ∃ c, s.connection? w' = some c ∧ c.handle = h := by
  obtain ⟨c, hc, hset⟩ := hu.connection
  refine ⟨c, ?_, hc⟩
  rw [connection?, hset, List.getElem?_set_self hs]
  rfl

theorem connection?_ne (hu : s.Uses w h w') (hne : t.connection ≠ s.connection) :
    t.connection? w' = t.connection? w := by
  obtain ⟨c, -, hset⟩ := hu.connection
  rw [connection?, connection?, hset, List.getElem?_set_ne (Ne.symm hne)]

/-- Every store that is open stays so, on the same file, and every closed one stays closed. -/
theorem connection?_map (hu : s.Uses w h w') (hs : s.IsOn w h) (t : Store) :
    (t.connection? w').map (·.handle) = (t.connection? w).map (·.handle) := by
  by_cases hsame : t.connection = s.connection
  · obtain ⟨c, hc, rfl⟩ := hs.connection
    obtain ⟨c', hc', hhandle⟩ := hu.connection?_self (lt_length hc)
    have ht : ∀ v, t.connection? v = s.connection? v := fun v => by
      rw [connection?, connection?, hsame]
    rw [ht, ht, hc, hc', Option.map_some, Option.map_some, hhandle]
  · rw [hu.connection?_ne hsame]

/-- Every store that is on a database stays on it. -/
theorem isOn (hu : s.Uses w h w') (ho : w.IsOrderly D) (hs : s.IsOn w h) (ht : t.IsOn w g) :
    t.IsOn w' g := by
  refine ⟨?_, hu.image ho.sound (hs.owns ho) (ht.owns ho) ht.image⟩
  obtain ⟨c, hc, rfl⟩ := ht.connection
  have hmap := hu.connection?_map hs t
  rw [hc, Option.map_some, Option.map_eq_some_iff] at hmap
  exact hmap

/-- The rows at all other places are as they were. -/
theorem tableAt_eq (hu : s.Uses w h w') (hw : w.IsSound) (hown : w.Owns D h)
    (hp : h.place ≠ some p) : w'.tableAt p = w.tableAt p := by
  obtain ⟨v, hr, hdisk⟩ := hu.revises
  have htable : w'.tableAt p = v.tableAt p := by
    simp only [World.tableAt, World.table?, World.content, hdisk]
  rw [htable, hr.tableAt_eq hw hown hp]

/-- A handle on one of the databases stays one. -/
theorem owns (hu : s.Uses w h w') (hw : w.IsSound) (ho' : w'.IsOrderly D)
    (hs : s.connection < w.connections.length) (hown : w.Owns D h) (hg : w.Owns D g) :
    w'.Owns D g := by
  obtain ⟨v, hr, hdisk⟩ := hu.revises
  rcases hr.content_cases hw hown hg with hsame | ⟨rfl, -⟩
  · exact (hg.after hr.bound fun i hi => hg.made i (hsame ▸ hi)).of_disk hdisk.symm
  · obtain ⟨c, hc, hhandle⟩ := hu.connection?_self hs
    exact hhandle ▸ (ho'.connection (mem_of_connection? hc)).1

/-- The rows behind all other handles are as they were. -/
theorem table?_eq (hu : s.Uses w h w') (hw : w.IsSound) (hown : w.Owns D h) (hg : w.Owns D g)
    (hne : g ≠ h) : w'.table? g = w.table? g := by
  obtain ⟨v, hr, hdisk⟩ := hu.revises
  have htable : w'.table? g = v.table? g := by
    simp only [World.table?, World.content, hdisk]
  rw [htable]
  rcases hr.content_cases hw hown hg with hsame | ⟨heq, -⟩
  · exact World.table?_of_content hsame
  · exact absurd heq hne

end Uses

/-! ## 4. How an operation fails -/

/-- How an operation of a store that is open fails.  With no table it is missed.  With the table
there, a transaction from outside is in the way, and that is what is reported, unless the database
is closed off and the store goes by its memory of a time when the table was missing. -/
inductive Fails (w : World) (s : Store) (h : Handle) (q : Query) (isFree : Prop) : Failure → Prop
  | contention (hbusy : ¬isFree) : Fails w s h q isFree (.contention s.timeout s.path)
  | noTable (hmissing : w.table? h = none ∨
      ¬w.IsReadable h ∧ ∃ c, s.connection? w = some c ∧ c.IsBlind q) :
      Fails w s h q isFree (.database .noTable)

/-- Nothing fails if the table is there and nobody is in the way. -/
theorem Fails.absurd {isFree : Prop} {e : Failure} (hf : s.Fails w h q isFree e) (hfree : isFree)
    (hreadable : isFree → w.IsReadable h) {rows : Table} (hrows : w.table? h = some rows) :
    False := by
  cases hf with
  | contention hbusy => exact hbusy hfree
  | noTable hmissing =>
    rcases hmissing with hnone | ⟨hclosed, -⟩
    · rw [hrows] at hnone
      exact Option.some_ne_none _ hnone
    · exact hclosed (hreadable hfree)

/-- What keeps a statement from its rows, as the store reports it. -/
theorem fails_of_denies (ho : w.IsOrderly D) (hc : s.connection? w = some c) {i : Image}
    (hi : w.content c.handle = .database i) {isFree : Prop}
    (hfree : isFree → w.IsReadable c.handle) {f : DatabaseFault} (hd : Denies w c q i f) :
    s.Fails w c.handle q isFree (s.failure f) := by
  have hbusy : w.isClosedOff c.handle.file = true → ¬w.IsReadable c.handle := by
    intro hclosed hreadable
    rw [ho.isClosedOff_eq_false.mpr hreadable] at hclosed
    exact Bool.false_ne_true hclosed
  cases hd with
  | locked hclosed => exact .contention fun h => hbusy hclosed (hfree h)
  | blind hclosed hblind => exact .noTable (.inr ⟨hbusy hclosed, c, hc, hblind⟩)
  | missing hopen hnone =>
    refine .noTable (.inl ?_)
    rw [World.table?, hi]
    exact hnone

/-! ## 5. Recording -/

/-- A row that was not put has left no trace. -/
theorem putRow_still {r : Row} {i : Image} (ht : Attempts w c (IsPut i r) (w.putRow c r))
    {f : DatabaseFault} (ha : Accepts w c i (.error f)) :
    w.ChangesOnly (fun _ => False) (fun _ => False) (w.putRow c r).world := by
  rcases ht.revises with hstill | ⟨halone, -, j, ⟨rows, hrows, -⟩, -⟩
  · exact hstill
  have hopen : w.isClosedOff c.handle.file = false := by
    by_contra hclosed
    rw [Bool.not_eq_false] at hclosed
    have hshared := World.isShared_of_isClaimed (World.isClaimed_of_isClosedOff hclosed)
    rw [halone] at hshared
    exact absurd hshared (by simp)
  cases ha with
  | denied hd =>
    cases hd with
    | locked hclosed | blind hclosed =>
      rw [hopen] at hclosed
      exact absurd hclosed (by simp)
    | missing _ hnone =>
      rw [hrows] at hnone
      exact absurd hnone (by simp)
  | refused _ hshared =>
    rw [halone] at hshared
    exact absurd hshared (by simp)

/-- **Recording** puts the row if the table is there and no transaction from outside uses the
file; otherwise it leaves no trace. -/
theorem put_isOn (ho : w.IsOrderly D) (hs : s.IsOn w h) (r : Record) :
    (s.put w r).1.IsOrderly D ∧ s.Uses w h (s.put w r).1 ∧
      match (s.put w r).2 with
      | .ok () => w.IsLeftAlone h ∧ ∃ rows, w.table? h = some rows ∧
          (s.put w r).1.table? h = some (rows.put (Row.ofRecord r))
      | .error e => s.Fails w h .put (w.IsLeftAlone h) e ∧ IsUntouched w (s.put w r).1 := by
  obtain ⟨⟨c, hc, rfl⟩, i, hi⟩ := hs
  have hshares := ho.shares (mem_of_connection? hc)
  have hown := (ho.connection (mem_of_connection? hc)).1
  have hmade := hown.made i hi
  obtain ⟨hattempts, haccepts, hput⟩ :=
    World.putRow_image hshares hi hmade.room (Row.ofRecord r)
  obtain ⟨horderly, huses⟩ := use_orderly (f := fun w c => w.putRow c (Row.ofRecord r)) ho hc
    hattempts fun j hj => hj.isMade hmade
  refine ⟨horderly, huses, ?_⟩
  have hstill : ∀ {f}, (w.putRow c (Row.ofRecord r)).result = .error f →
      w.ChangesOnly (fun _ => False) (fun _ => False) (w.putRow c (Row.ofRecord r)).world :=
    fun hf => putRow_still hattempts (hf ▸ haccepts)
  have heq : s.put w r = _ := use_eq hc _
  rw [heq]
  cases hresult : (w.putRow c (Row.ofRecord r)).result with
  | ok u =>
    obtain ⟨j, ⟨rows, hrows, rfl⟩, hcontent⟩ := hput hresult
    rw [hresult] at haccepts
    cases haccepts with
    | kept halone htable =>
      refine ⟨ho.isShared_eq_false.mp halone, rows, ?_, ?_⟩
      · rw [World.table?, hi]
        exact hrows
      · have hafter : (s.setConnection (w.putRow c (Row.ofRecord r)).world
            (some (w.putRow c (Row.ofRecord r)).connection)).content c.handle = _ := hcontent
        simp only [World.table?, hafter]
        rfl
  | error f =>
    refine ⟨?_, (hstill hresult).disk⟩
    rw [hresult] at haccepts
    cases haccepts with
    | denied hd => exact fails_of_denies ho hc hi World.IsLeftAlone.isReadable hd
    | refused hopen hshared =>
      refine .contention fun halone => ?_
      rw [ho.isShared_eq_false.mpr halone] at hshared
      exact absurd hshared (by simp)

/-! ## 6. Reading -/

/-- **Reading** gives the rows if the table is there and no transaction from outside has closed
off the file, and in any case leaves the disk as it is. -/
theorem readRows_isOn (ho : w.IsOrderly D) (hs : s.IsOn w h) (q : Query) :
    (s.use w fun w c => w.readRows c q).1.IsOrderly D ∧
      s.Uses w h (s.use w fun w c => w.readRows c q).1 ∧
      (s.use w fun w c => w.readRows c q).1.disk = w.disk ∧
      match (s.use w fun w c => w.readRows c q).2 with
      | .ok rows => w.IsReadable h ∧ w.table? h = some rows
      | .error e => s.Fails w h q (w.IsReadable h) e := by
  obtain ⟨⟨c, hc, rfl⟩, i, hi⟩ := hs
  have hshares := ho.shares (mem_of_connection? hc)
  obtain ⟨hrests, hresult⟩ := World.readRows_image hshares hi q
  obtain ⟨horderly, huses⟩ := use_orderly (f := fun w c => w.readRows c q) ho hc
    (hrests.attempts hshares (fun _ => False) _) fun _ h => h.elim
  refine ⟨horderly, huses, ?_⟩
  rw [use_eq hc]
  refine ⟨show (w.readRows c q).world.disk = w.disk by rw [hrests.world], ?_⟩
  cases hrows : (w.readRows c q).result with
  | ok rows =>
    rw [hrows] at hresult
    refine ⟨ho.isClosedOff_eq_false.mp hresult.1, ?_⟩
    rw [World.table?, hi]
    exact hresult.2
  | error f =>
    rw [hrows] at hresult
    exact fails_of_denies ho hc hi id hresult

/-- What is recorded for a file in rows that were read. -/
def recordIn (file : Text) (rows : Table) : Except Failure (Option Record) :=
  match rows.get? file with
  | none => .ok none
  | some row => (row.record.mapError .undecodable).map some

theorem get_eq (w : World) (s : Store) (file : Text) :
    s.get w file = ((s.use w fun w c => w.readRows c .get).1,
      (s.use w fun w c => w.readRows c .get).2.bind (recordIn file)) := by
  unfold get recordIn
  split
  · next hr => rw [hr]; rfl
  · next hr =>
    rw [hr]
    simp only [Except.bind]
    split <;> simp_all

theorem records_eq (w : World) (s : Store) :
    s.records w = ((s.use w fun w c => w.readRows c .list).1,
      (s.use w fun w c => w.readRows c .list).2.bind
        fun rows => rows.records.mapError .undecodable) := by
  unfold records
  split
  · next hr => rw [hr]; rfl
  · next hr => rw [hr]; rfl

/-! ## 7. Closing -/

/-- Closing a store gives up its connection, and that is all. -/
theorem close_eq (ho : w.IsOrderly D) (s : Store) :
    s.close w = if (s.connection? w).isSome then s.setConnection w none else w := by
  unfold close
  cases hc : s.connection? w with
  | none => rfl
  | some c =>
    have hlogging := (ho.connection (mem_of_connection? hc)).2.isLogging
    simp [World.releaseLog, hlogging]

theorem close_orderly (ho : w.IsOrderly D) (s : Store) : (s.close w).IsOrderly D := by
  rw [close_eq ho]
  split
  · exact ho.dropConnection
  · exact ho

/-- A store that was closed is closed. -/
theorem connection?_close (ho : w.IsOrderly D) (hsame : t.connection = s.connection) :
    t.connection? (s.close w) = none := by
  have ht : ∀ v, t.connection? v = s.connection? v := fun v => by
    rw [connection?, connection?, hsame]
  rw [ht, close_eq ho]
  cases hc : s.connection? w with
  | none => simpa using hc
  | some c =>
    rw [Option.isSome_some, if_pos rfl]
    exact connection?_setConnection hc rfl none

theorem connection?_close_ne (ho : w.IsOrderly D) (hne : t.connection ≠ s.connection) :
    t.connection? (s.close w) = t.connection? w := by
  rw [close_eq ho]
  split
  · rw [connection?, connection?, setConnection, List.getElem?_set_ne (Ne.symm hne)]
  · rfl

/-- A store that is closed answers that it is, and leaves the world as it is. -/
theorem use_closed (hc : s.connection? w = none) (f : World → Connection → Turn α) :
    s.use w f = (w, .error (.database .closed)) := by
  rw [use, hc]

end Store

end CompileJournal
