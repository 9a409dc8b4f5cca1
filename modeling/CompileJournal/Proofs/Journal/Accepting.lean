import CompileJournal.Proofs.Journal.InStep
import CompileJournal.Proofs.World.Lookup

/-!
# A store that has accepted one record

Whether a store accepts a record does not depend on the record, and once it has accepted one it
accepts every other one and leaves all entries of the disk where they are.  For a store whose
database lies where it was opened, and whose connection remembers it rightly, this is the readiness
that one change leaves for the next.  It holds as well where the connection remembers an older
state of the file, and where the database has lost its name: whoever uses the log needs nothing but
the file, and whoever does not has found the database in its place.

* `World.Remains`: the file of a handle lies nowhere else than where it was opened;
* `putRow_ready`: one row that was put makes way for the next;
* `putRow_entryAt`: which row it is makes no difference to the tree;
* `Store.IsTrusted`, `put_trusted`: a store that can go by what its connection remembers, and one
  record more;
* `openAt_trusted`: a store that has just been opened is one;
* `Store.Accepts`, `accepts_of_put`: one record that was accepted makes way for all others.
-/

namespace CompileJournal

open World (IsReady Knows Starts TakesTurn)

variable {w w' v : World} {h : Handle} {c d : Connection} {s : Store} {i j : Image} {path : Text}

namespace World

/-! ## 1. A file that is where it was opened, or gone -/

/-- The file of a handle is there, and it lies nowhere else than where it was opened.  It may have
lost its name. -/
structure Remains (w : World) (h : Handle) : Prop where
  number : h.file < w.disk.contents.length
  inside : h.place ≠ some []
  only : ∀ {p}, w.disk.entryAt p = some (.file h.file) → h.place = some p

theorem Remains.carries (hr : w.Remains h) : w.Carries h where
  number := hr.number
  apart {name outer} hbeside inside hfile := by
    obtain ⟨base, outer', hplace, hx⟩ : ∃ base outer', h.place = some (base :: outer') ∧
        ∃ ending : Text, ending ≠ [] ∧ name = base ++ ending := by
      rcases hbeside with hx | hx | hx
      all_goals
        obtain ⟨base, outer', hplace, heq⟩ := Handle.beside_eq_some hx
        exact ⟨base, outer', hplace, _, by decide, (List.cons.inj heq).1⟩
    obtain ⟨ending, hending, rfl⟩ := hx
    obtain ⟨hname, -⟩ := List.cons.inj (Option.some.inj ((hr.only hfile).symm.trans hplace))
    exact hending (List.self_eq_append_right.mp hname.symm)

theorem Hosts.remains (hh : w.Hosts h) (hw : w.IsSound) (hp : h.place.isSome) : w.Remains h where
  number := hh.number
  inside hroot := absurd (hh.place hroot) (by simp)
  only {p} hfile := by
    obtain ⟨q, hq⟩ := Option.isSome_iff_exists.mp hp
    rw [hq, hw.tree.unique (hh.place hq) hfile]

/-- The file is where it was opened, or gone, after all that an access does. -/
theorem ChangesOnly.remains {touched : Place → Prop} {written : FileNumber → Prop}
    (hb : w.ChangesOnly touched written v) (hr : w.Remains h) : v.Remains h where
  number := Nat.lt_of_lt_of_le hr.number hb.disk.length
  inside := hr.inside
  only hfile := hr.only ((hb.disk.file hfile).resolve_right (Nat.not_le_of_lt hr.number))

/-- Whoever finds the database in its place has it where it was opened. -/
theorem Remains.hosts (hr : w.Remains h) (hplace : w.isInPlace h = true) : w.Hosts h := by
  refine ⟨hr.number, fun {p} hp => ?_⟩
  rw [isInPlace, hp] at hplace
  have hfollow : w.followPlace p = some (.file h.file) := of_decide_eq_true hplace
  unfold followPlace at hfollow
  split at hfollow
  · exact absurd hfollow (by simp)
  · next q hq =>
    obtain rfl : p = q := Option.some.inj (hp.symm.trans (hr.only hfollow))
    exact hfollow

/-- A database that lies where it was opened has lain there before. -/
theorem ChangesOnly.hosts_before {touched : Place → Prop} {written : FileNumber → Prop}
    (hb : w.ChangesOnly touched written v) (hn : h.file < w.disk.contents.length)
    (hh : v.Hosts h) : w.Hosts h :=
  ⟨hn, fun hp => (hb.disk.file (hh.place hp)).resolve_right (Nat.not_le_of_lt hn)⟩

/-- A database that was just opened lies at its own place alone. -/
theorem Connects.remains (hc : w.Connects path v c) (hw : w.IsSound) : v.Remains c.handle := by
  rcases hc.found_or_added with ⟨rfl, p, hp⟩ | hadds
  · exact hc.hosts.remains hw (by rw [hp]; rfl)
  · refine ⟨hc.hosts.number, fun hroot => ?_, fun {p} hfile => ?_⟩
    · exact absurd (hc.hosts.place hroot) (by simp)
    · by_contra hne
      rw [hadds.elsewhere hne] at hfile
      exact absurd (hw.tree.number hfile) (by simp [hadds.number])

/-! ## 2. The steps of a row that was put -/

/-- A row that was put was put into the rows that were seen, whichever row it was.  The connection
`c₂` is the one that has read, after it has looked at the table. -/
theorem putRow_found {r : Row} (hok : (w.putRow c r).result = .ok ()) :
    ∃ (v₁ : World) (c₁ : Connection) (v : World) (d c₂ : Connection) (i : Image) (rows : Table),
      w.understand c .put = ⟨v₁, c₁, .ok ()⟩ ∧ v₁.beginWrite c₁ false = ⟨v, d, .ok (some i)⟩ ∧
        (c₂.handle = d.handle ∧ c₂.memory.isLogging = d.memory.isLogging) ∧
        ∀ r', w.putRow c r' =
          v.keep c₂ (some i) (i.withRows (!c₂.memory.isLogging) (rows.put r')) := by
  unfold putRow at hok ⊢
  cases hunderstand : w.understand c .put with
  | mk v₁ c₁ result =>
  rw [hunderstand] at hok
  cases result with
  | error f => exact absurd hok (by simp)
  | ok u =>
  simp only at hok ⊢
  cases hwrite : v₁.beginWrite c₁ false with
  | mk v d result =>
  rw [hwrite] at hok
  cases result with
  | error f => exact absurd hok (by simp)
  | ok seen =>
  simp only at hok ⊢
  rcases rowsOf_cases v d .put seen with ⟨m, -, -, heq⟩ | ⟨i, rows, rfl, -, heq⟩
  · rw [heq] at hok
    exact absurd hok (by simp)
  · rw [heq]
    exact ⟨v₁, c₁, v, d, d.remember { d.memory with schema := some (Image.schema (some i)) }, i,
      rows, rfl, hwrite, ⟨rfl, rfl⟩, fun r' => rfl⟩

/-- The two ways in which a change is kept. -/
theorem keep_way (hok : (w.keep c (some i) j).result = .ok ()) :
    c.memory.isLogging = true ∧ (w.keep c (some i) j).world = w.setImage c.handle j ∨
      c.memory.isLogging = false ∧ ∃ v, w.openUndo c.handle = (v, .ok ()) := by
  unfold keep at hok ⊢
  simp only [Option.isSome_some, if_true] at hok ⊢
  cases hl : c.memory.isLogging with
  | true => exact .inl ⟨rfl, rfl⟩
  | false =>
    simp only [hl, Bool.false_eq_true, if_false] at hok
    cases hopen : w.openUndo c.handle with
    | mk v r =>
    rw [hopen] at hok
    cases r with
    | error f => exact absurd hok (by simp)
    | ok u => exact .inr ⟨rfl, v, rfl⟩

/-- Whoever opens the undo file of a database finds the database in its place. -/
theorem isInPlace_of_openUndo (hinside : h.place ≠ some [])
    (hblank : (w.content h).isBlank = false) (hopen : w.openUndo h = (v, .ok ())) :
    w.isInPlace h = true := by
  cases hplace : h.place with
  | none => rw [isInPlace, hplace]
  | some p =>
  cases p with
  | nil => exact absurd hplace hinside
  | cons name outer =>
    have hundo : h.undo = some ((name ++ "-journal".toList) :: outer) := by
      rw [Handle.undo, Handle.beside, hplace]
    unfold openUndo at hopen
    rw [hundo, hblank] at hopen
    cases hin : w.isInPlace h with
    | true => rfl
    | false =>
      rw [hin] at hopen
      exact absurd (congrArg Prod.snd hopen) (by simp)

/-! ## 3. One row makes way for the next -/

/-- Where nobody uses the log, what is of use is in agreement with the file. -/
theorem Trusts.agrees (ht : w.Trusts c) (halone : w.isShared c.handle.file = false)
    (hlogging : c.memory.isLogging = false) : c.memory.Agrees (w.content c.handle) := by
  rcases ht with hlogger | hl | ha
  · rw [hlogger.isShared] at halone
    exact absurd halone (by simp)
  · exact absurd (hl.symm.trans hlogging) (by simp)
  · exact ha

/-- A change that was kept in the database leaves its connection with a clear way. -/
theorem keep_clears (hw : w.IsSound) (hh : w.Hosts c.handle)
    (hcontent : w.content c.handle = .database i) (hlogging : c.memory.isLogging = false)
    (hlog : ∀ l, c.handle.log = some l → w.isSolid l = false)
    (hok : (w.keep c (some i) j).result = .ok ()) :
    Starts (w.keep c (some i) j).world (w.keep c (some i) j).connection ∧
      (w.keep c (some i) j).world.IsClear c.handle := by
  obtain ⟨hkept, hconnection, -⟩ := (keep_keepsOrNot (hh.carries hw) (some i) j).kept hok
  have hbound := ((isFrame_bounded c.handle (· = c.handle.file)).keep
    (fun _ i hw _ => setImage_bounded hw i) rfl (some i) j).world hw hh
  refine ⟨⟨hbound.sound hw, ?_, ?_⟩, isClear_of_keep hw hh hcontent hlogging hlog hok⟩
  · rw [hconnection]
    exact hh.after hbound
  · rw [hconnection]
    exact hkept

/-- **A row that was put leaves its connection ready for the next one.**  Either the connection uses
the log, or it has found the database in its place and remembers it rightly now. -/
theorem putRow_ready (hw : w.IsSound) (hn : c.handle.IsNamed) (hr : w.Remains c.handle)
    (ht : w.Trusts c) {r : Row} (hok : (w.putRow c r).result = .ok ()) :
    ((w.putRow c r).connection.memory.isLogging = true ∨
        Starts (w.putRow c r).world (w.putRow c r).connection) ∧
      IsReady (w.putRow c r).world (w.putRow c r).connection := by
  obtain ⟨v₁, c₁, v, d, c₂, i, rows, hunderstand, hwrite, ⟨hc₂, hlogging₂⟩, hput⟩ :=
    putRow_found hok
  -- What has been done before the change is kept: nothing but what lies near the database.
  have hpasses := understand_passes hr.carries .put
  have hnear := isFrame_near c.handle fun _ => False
  have hspans := hnear.reads.understand (w := w) rfl .put
  rw [hunderstand] at hpasses hspans
  have hc₁ : c₁.handle = c.handle := hspans.connection
  have hsees := hpasses.sees (beginWrite_sees hpasses.carries false)
  have hspans' := hnear.beginWrite (w := v₁) hc₁ false
  rw [hwrite] at hsees hspans'
  have hd : c₂.handle = c.handle := hc₂.trans hspans'.connection
  have hb₁ : w.ChangesOnly c.handle.IsNear (fun _ => False) v₁ := hspans.world hw hn
  have hw₁ := hb₁.sound hw
  have hb : v₁.ChangesOnly c.handle.IsNear (fun _ => False) v := hspans'.world hw₁ hn
  have hcarries : v.Carries c₂.handle := hc₂ ▸ hsees.carries
  rw [hput] at hok ⊢
  generalize hj : i.withRows (!c₂.memory.isLogging) (rows.put r) = j at hok ⊢
  obtain ⟨-, hconnection, hfree⟩ := (keep_keepsOrNot hcarries (some i) j).kept hok
  obtain ⟨hlogged, hunlogged⟩ := beginWrite_way hwrite
  rw [← hc₂, ← hlogging₂] at hlogged
  rw [← hlogging₂] at hunlogged
  have hknows : Knows (v.keep c₂ (some i) j).connection := by
    rw [hconnection]
    refine ⟨_, rfl, ?_⟩
    rw [schema_hasTable, ← hj]
    rfl
  have hstill : (c₂.remember (c₂.memory.wrote j)).memory.isLogging = c₂.memory.isLogging := rfl
  rcases keep_way hok with ⟨hl, hworld⟩ | ⟨hl, u, hopen⟩
  · refine ⟨.inl (hconnection ▸ hl), hknows, ?_⟩
    rw [hconnection, hstill, if_pos hl, hworld]
    exact hlogged hl
  -- Nobody uses the log, so the connection has remembered the file rightly.
  have halone : w.isShared c.handle.file = false := by
    rw [← isShared_eq hsees.world.locks hsees.world.connections, ← hd]
    exact hfree.resolve_left (by simp [hl])
  have hunused : c.memory.isLogging = false := by
    by_contra hlogging
    rw [hlogging₂, hsees.logging (by simpa using hlogging)] at hl
    exact absurd hl (by simp)
  have hcontent : w.content c.handle = .database i := Content.eq_database_of_image
    (Content.eq_image_of_seen (hsees.seen rfl (.inr (ht.agrees halone hunused)))).symm
  have hcontent₁ : v₁.content c₁.handle = .database i := hpasses.content.trans hcontent
  have hcontent₂ : v.content c₂.handle = .database i := hc₂ ▸ hsees.content.trans hcontent
  -- The undo file could be opened, so the database is in its place, and was before.
  have hremains : v.Remains c₂.handle := hd ▸ hb.remains (hb₁.remains hr)
  have hhosts : v.Hosts c₂.handle := hremains.hosts (isInPlace_of_openUndo hremains.inside
    (by rw [hcontent₂]; rfl) hopen)
  have hhosts₁ : v₁.Hosts c₁.handle := by
    rw [hc₁, ← hd]
    exact hb.hosts_before (hd ▸ (hb₁.remains hr).number) hhosts
  have hsolid := hunlogged hl hw₁ hhosts₁ (by rw [hcontent₁]; rfl)
  rw [hc₁, ← hd] at hsolid
  obtain ⟨hstarts, hclear⟩ := keep_clears (hb.sound hw₁) hhosts hcontent₂ hl hsolid hok
  refine ⟨.inr hstarts, hknows, ?_⟩
  rw [hconnection, hstill, if_neg (by simp [hl])]
  exact hclear

/-! ## 4. Which row it is makes no difference to the tree -/

theorem unlink_congr (h : ∀ x, w'.disk.entryAt x = w.disk.entryAt x) (p x : Place) :
    (w'.unlink p).disk.entryAt x = (w.unlink p).disk.entryAt x := by
  cases p with
  | nil => exact h x
  | cons name outer =>
    rw [unlink, unlink, Disk.findLast_congr h]
    cases w.disk.findLast [] outer.reverse name with
    | error e => exact h x
    | ok q =>
      simp only [h]
      split
      · exact h x
      · next hq =>
        have hne : q ≠ [] := fun hnil => hq (by rw [hnil]; rfl)
        simp only [removeAt, Disk.entryAt_remove _ hne, h]

/-- The same lies at all places, whichever image is kept. -/
theorem keep_entryAt (w : World) (c : Connection) (seen : Option Image) (i j : Image) (x : Place) :
    (w.keep c seen i).world.disk.entryAt x = (w.keep c seen j).world.disk.entryAt x := by
  have hset : ∀ (v : World) x, (v.setImage c.handle i).disk.entryAt x =
      (v.setImage c.handle j).disk.entryAt x := fun v x =>
    (Disk.entryAt_setContent ..).trans (Disk.entryAt_setContent ..).symm
  unfold keep
  simp only
  split
  · exact hset w x
  split
  · rfl
  next v _ =>
  split
  · rfl
  · unfold dropUndo
    split
    · exact hset v x
    · exact unlink_congr (hset v) _ x

theorem putRow_entryAt (w : World) (c : Connection) (r r' : Row) (x : Place) :
    (w.putRow c r).world.disk.entryAt x = (w.putRow c r').world.disk.entryAt x := by
  unfold putRow
  split
  · rfl
  split
  · rfl
  split
  · exact keep_entryAt ..
  · rfl
  · rfl

end World

namespace Store

/-! ## 5. Stores that can be trusted -/

/-- A store that is open on a database which is where it was opened, or gone, and that can go by
what its connection remembers. -/
structure IsTrusted (w : World) (s : Store) (c : Connection) : Prop where
  connection : s.connection? w = some c
  sound : w.IsSound
  named : c.handle.IsNamed
  remains : w.Remains c.handle
  trusts : w.Trusts c

/-- What the use of such a store leaves: it can be trusted again, and nothing has changed but its
database and what lies beside it. -/
structure Continues (w : World) (s : Store) (c : Connection) (w' : World) (c' : Connection) : Prop
    extends IsTrusted w' s c' where
  handle : c'.handle = c.handle
  disk : w.disk.ChangesOnly c.handle.IsNear (· = c.handle.file) w'.disk
  cwd : w'.cwd = w.cwd

theorem IsTrusted.continues (ht : s.IsTrusted w c) : s.Continues w c w c :=
  ⟨ht, rfl, .refl ht.sound.tree, rfl⟩

theorem Continues.trans {c' c'' : Connection} (hc : s.Continues w c v c')
    (hc' : s.Continues v c' w' c'') : s.Continues w c w' c'' where
  toIsTrusted := hc'.toIsTrusted
  handle := hc'.handle.trans hc.handle
  disk := hc.disk.trans (hc.handle ▸ hc'.disk)
  cwd := hc'.cwd.trans hc.cwd

/-- Whoever takes a turn can be trusted again. -/
theorem use_trusted (ht : s.IsTrusted w c) {f : World → Connection → Turn Unit}
    {becomes : Option Table → Option Table → Prop} (hturn : TakesTurn w c becomes (f w c))
    (hbound : w.ChangesOnly c.handle.IsNear (· = c.handle.file) (f w c).world) :
    ∃ c', s.Continues w c (s.use w f).1 c' ∧
      match (s.use w f).2 with
      | .ok _ => becomes (w.table? c.handle) ((s.use w f).1.table? c.handle)
      | .error _ => (s.use w f).1.table? c.handle = w.table? c.handle := by
  have hconnection := ht.connection
  have hself := connection?_setConnection hconnection hturn.world.connections
    (some (f w c).connection)
  have hhandle := hturn.handle
  have hsound := hbound.sound ht.sound
  have hremains := hbound.remains ht.remains
  rw [use_eq hconnection]
  refine ⟨(f w c).connection, ⟨⟨hself, ⟨hsound.tree, hsound.cwd⟩, hhandle ▸ ht.named, ?_, ?_⟩,
    hhandle, hbound.disk, hbound.cwd⟩, ?_⟩
  · rw [hhandle]
    exact ⟨hremains.number, hremains.inside, hremains.only⟩
  · rw [World.Trusts, hhandle]
    rcases hturn.memory ht.trusts with hl | ⟨hsame, hagrees⟩ | ⟨-, hagrees, -⟩
    · exact .inr (.inl hl)
    · refine ht.trusts.imp (hasLogger_setConnection hconnection hhandle hturn.logging
        hturn.world.connections) (Or.imp hturn.logging fun ha => ?_)
      have hafter := hagrees ha
      rw [← hsame] at hafter
      exact hafter
    · exact .inr (.inr hagrees)
  · cases hr : (f w c).result with
    | ok u => exact hturn.kept ht.trusts hr
    | error e => exact World.table?_of_content (hturn.refused e hr)

/-- **A store that can be trusted puts a record into the rows that are there, or it leaves them**,
and can be trusted again. -/
theorem put_trusted (ht : s.IsTrusted w c) (r : Record) :
    ∃ c', s.Continues w c (s.put w r).1 c' ∧
      match (s.put w r).2 with
      | .ok _ => ∃ rows, w.table? c.handle = some rows ∧
          (s.put w r).1.table? c.handle = some (rows.put (Row.ofRecord r))
      | .error _ => (s.put w r).1.table? c.handle = w.table? c.handle :=
  use_trusted (f := fun w c => w.putRow c (Row.ofRecord r)) ht
    (World.putRow_turns ht.remains.carries _) (World.putRow_near ht.sound ht.named _)

/-- A store that is in step with the others can be trusted. -/
theorem IsOpenOn.isTrusted (hs : s.IsOpenOn w h) (hw : w.IsInStep h) (hp : h.place.isSome) :
    ∃ c, c.handle = h ∧ s.IsTrusted w c := by
  obtain ⟨c, hc, rfl⟩ := hs.exists_connection
  exact ⟨c, rfl, hc, hw.sound, hw.hosts.isNamed hw.sound, hw.hosts.remains hw.sound hp,
    hw.trusts (mem_of_connection? hc) rfl⟩

/-- **A store that has just been opened can be trusted.** -/
theorem openAt_trusted (hw : w.IsSound) {path : Text} {timeout : Binary64}
    (hopen : openAt w path timeout = (w', .ok s)) : ∃ c, s.IsTrusted w' c := by
  rcases openAt_cases hw path timeout with ⟨e, heq⟩ | ⟨v, c, ho⟩
  · exact absurd (congrArg Prod.snd (heq.symm.trans hopen)) (by simp)
  have hconnects := ho.connects
  have hremains := hconnects.remains ho.sound
  have ht : IsTrusted (attach v c) ⟨path, timeout, v.connections.length⟩ c := {
    connection := connection?_new
    sound := ho.starts.sound
    named := hconnects.hosts.isNamed (hconnects.grows.sound ho.sound)
    remains := ⟨hremains.number, hremains.inside, hremains.only⟩
    trusts := .inr (.inr (hconnects.memory ▸ Memory.agrees_empty _)) }
  obtain ⟨c', hcontinues, -⟩ := use_trusted (f := World.makeTable) ht
    (World.makeTable_turns ht.remains.carries (hconnects.memory ▸ Memory.agrees_empty _))
    (World.makeTable_near ht.sound ht.named)
  rw [ho.opened] at hopen
  simp only at hopen
  generalize Store.use (attach v c) ⟨path, timeout, v.connections.length⟩ World.makeTable = r
    at hopen hcontinues
  obtain ⟨u, result⟩ := r
  cases result with
  | error e => exact absurd (congrArg Prod.snd hopen) (by simp [Except.map])
  | ok _ =>
    obtain ⟨rfl, hs⟩ := Prod.mk.inj hopen
    obtain rfl := Except.ok.inj hs
    exact ⟨c', hcontinues.toIsTrusted⟩

/-! ## 6. Stores that accept every record -/

/-- A store through which every record can be put, and none moves anything in the tree. -/
structure Accepts (w : World) (s : Store) (c : Connection) : Prop extends IsTrusted w s c where
  every : ∀ r, (s.put w r).2 = .ok () ∧ w.SameTree (s.put w r).1

/-- **A store that has put one record accepts every other one.** -/
theorem accepts_of_put (ht : s.IsTrusted w c) {r : Record} (hok : (s.put w r).2 = .ok ()) :
    ∃ c', s.Continues w c (s.put w r).1 c' ∧ s.Accepts (s.put w r).1 c' := by
  obtain ⟨c', hcontinues, hrows⟩ := put_trusted ht r
  rw [hok] at hrows
  obtain ⟨rows, -, hrows⟩ := hrows
  have hput : s.put w r = _ := use_eq ht.connection _
  have hresult : (w.putRow c (Row.ofRecord r)).result = .ok () := by
    rw [hput] at hok
    exact result_ok hok
  obtain ⟨hway, hready⟩ := World.putRow_ready ht.sound ht.named ht.remains ht.trusts hresult
  have hturn := World.putRow_turns ht.remains.carries (Row.ofRecord r)
  obtain rfl : (w.putRow c (Row.ofRecord r)).connection = c' := by
    have hself := connection?_setConnection ht.connection hturn.world.connections
      (some (w.putRow c (Row.ofRecord r)).connection)
    have hconnection := hcontinues.connection
    rw [hput, hself] at hconnection
    exact Option.some.inj hconnection
  refine ⟨_, hcontinues, hcontinues.toIsTrusted, fun r' => ?_⟩
  obtain ⟨d, hnext, -⟩ := put_trusted hcontinues.toIsTrusted r'
  have hput' : s.put (s.put w r).1 r' = _ := use_eq hcontinues.connection _
  have hworld : (s.put w r).1 = s.setConnection (w.putRow c (Row.ofRecord r)).world
      (some (w.putRow c (Row.ofRecord r)).connection) := congrArg Prod.fst hput
  rw [← hcontinues.handle] at hrows
  obtain ⟨hok', hentry⟩ := World.putRow_of_isReady (w := (s.put w r).1)
    (c := (w.putRow c (Row.ofRecord r)).connection)
    (hworld ▸ hway.imp_right fun hs => starts_setConnection hs _) hrows
    (hworld ▸ isReady_setConnection hready) (Row.ofRecord r')
  refine ⟨?_, ⟨fun x => ?_, hnext.cwd⟩⟩
  · rw [hput', hok']
    rfl
  · rw [hput']
    exact hentry x

/-- Whichever record is put, it leaves the same tree. -/
theorem put_sameTree (ht : s.IsTrusted w c) (r r' : Record) :
    (s.put w r).1.SameTree (s.put w r').1 := by
  obtain ⟨_, hr, -⟩ := put_trusted ht r
  obtain ⟨_, hr', -⟩ := put_trusted ht r'
  refine ⟨fun x => ?_, hr'.cwd.trans hr.cwd.symm⟩
  have hput : ∀ r, s.put w r = _ := fun r => use_eq ht.connection _
  rw [hput, hput]
  exact World.putRow_entryAt ..

/-- A store that accepts every record goes on doing so. -/
theorem Accepts.put (ha : s.Accepts w c) (r : Record) :
    ∃ c', s.Continues w c (s.put w r).1 c' ∧ s.Accepts (s.put w r).1 c' :=
  accepts_of_put ha.toIsTrusted (ha.every r).1

end Store

end CompileJournal
