import CompileJournal.Proofs.Journal.Recollection
import CompileJournal.Proofs.Sessions.Steps

/-!
# Failed operations leave no trace

What an operation of a store answers is a matter of the moment: whether the store is open, whether
its database has the table, and which transactions from outside are on it.  One that fails says
which of these it was, leaves every row and every entry, holds nothing that would keep anybody off,
and can be tried again as soon as the transactions in its way have ended.

There is one exception to the plain rule.  A store that has answered that there is no table may
repeat that while its database, which has the table again, is closed off.

* `Session.Ends`, `Session.Operates`: how an operation of an open store ends, and what it leaves;
* `Session.Preserves`: all that stores can see is as it was;
* `Session.release`: transactions from outside end;
* `Session.Trusts`: a store that has not missed the table since it was opened, or since an operation
  of it went well;
* `Session.FailsCleanly`, `fails_cleanly`: all of it, for the sessions that come about.
-/

namespace CompileJournal

/-- The store that a step uses, and the statement that it runs. -/
def StoreStep.query? : StoreStep → Option (Text × Query)
  | put name _ => some (name, .put)
  | get name _ => some (name, .get)
  | records name => some (name, .list)
  | openStore .. | closeStore _ => none

/-- The rows that a step reads are those of records. -/
def StoreStep.CanDecode (rows : Table) : StoreStep → Prop
  | get _ file => ∀ row, rows.get? file = some row → ∃ r, row.record = .ok r
  | records _ => ∀ row ∈ rows, ∃ r, row.record = .ok r
  | openStore .. | closeStore _ | put .. => True

/-- Whether a step went well. -/
def Reply.isOk : Reply → Bool
  | done a => a.toBool
  | found a => a.toBool
  | listed a => a.toBool

@[simp] theorem StoreStep.isOk_failed (x : StoreStep) (e : SessionError) :
    (x.failed e).isOk = false := by
  cases x <;> rfl

theorem StoreStep.failed_inj (x : StoreStep) {e e' : Failure}
    (h : x.failed (.failure e) = x.failed (.failure e')) : e = e' := by
  cases x <;> simpa [StoreStep.failed] using h

/-- No transaction from outside is in the way of a statement. -/
def World.IsFree (w : World) (h : Handle) : Query → Prop
  | .put => w.IsLeftAlone h
  | .get | .list => w.IsReadable h

namespace World

variable {D : Place → Prop} {w w' : World} {h : Handle} {q : Query}

theorem IsFree.isReadable (hf : w.IsFree h q) : w.IsReadable h := by
  cases q with
  | put => exact IsLeftAlone.isReadable hf
  | get | list => exact hf

theorem IsLeftAlone.isFree (ha : w.IsLeftAlone h) (q : Query) : w.IsFree h q := by
  cases q with
  | put => exact ha
  | get | list => exact ha.isReadable

theorem isFree_congr (hlocks : w'.locks = w.locks) : w'.IsFree h q ↔ w.IsFree h q := by
  cases q with
  | put => rw [IsFree, IsFree, IsLeftAlone, IsLeftAlone, hlocks]
  | get | list => rw [IsFree, IsFree, IsReadable, IsReadable, hlocks]

/-- All that keeps anybody off a database are the transactions from outside. -/
theorem IsOrderly.isShared_eq (ho : w.IsOrderly D) (n : FileNumber) :
    w.isShared n = w.locks.any fun l => l.handle.file = n && l.mode ≠ .deferred := by
  have hnone : (w.connections.any fun c? =>
      c?.any fun c => c.handle.file = n && c.memory.isLogging) = false := by
    refine List.any_eq_false.mpr fun c? hc => ?_
    cases c? with
    | none => simp
    | some c => simp [(ho.connection hc).2.isLogging]
  rw [isShared, hnone, Bool.or_false]

end World

namespace Session

variable {D : Place → Prop} {s s' s₀ t : Session} {x y : StoreStep} {q q' : Query}
  {w' : World} {name name' : Text} {store store' : Store} {c c' : Connection} {r : Reply}

/-! ## 1. How an operation of an open store ends -/

/-- A step uses a store that is open. -/
structure Calls (s : Session) (x : StoreStep) (q : Query) (store : Store) (c : Connection) :
    Prop where
  query : ∃ name, x.query? = some (name, q) ∧ s.store? name = some store
  connection : store.connection? s.world = some c

/-- How an operation ends: with nobody in its way and the table there it goes well, unless it meets
a row that is none of a record; otherwise it says what it lacks. -/
inductive Ends (s : Session) (x : StoreStep) (q : Query) (store : Store) (c : Connection) :
    Reply → Prop
  | went {r : Reply} {rows : Table} (hfree : s.world.IsFree c.handle q)
      (hrows : s.world.table? c.handle = some rows) (hok : x.CanDecode rows → r.isOk = true)
      (hfails : r.isOk = false → ∃ d, r = x.failed (.failure (.undecodable d))) :
      Ends s x q store c r
  | failed {e : Failure}
      (hf : store.Fails s.world c.handle q (s.world.IsFree c.handle q) e) :
      Ends s x q store c (x.failed (.failure e))

/-- **An operation goes well exactly if the table is there and nobody is in its way.** -/
theorem Ends.isOk_iff (he : Ends s x q store c r)
    (hdecode : ∀ rows, s.world.table? c.handle = some rows → x.CanDecode rows) :
    r.isOk = true ↔ (s.world.table? c.handle).isSome = true ∧ s.world.IsFree c.handle q := by
  cases he with
  | went hfree hrows hok _ =>
    rw [hrows]
    exact ⟨fun _ => ⟨rfl, hfree⟩, fun _ => hok (hdecode _ hrows)⟩
  | failed hf =>
    rw [StoreStep.isOk_failed]
    refine ⟨fun h => absurd h (by simp), fun ⟨hsome, hfree⟩ => ?_⟩
    obtain ⟨rows, hrows⟩ := Option.isSome_iff_exists.mp hsome
    exact (hf.absurd hfree World.IsFree.isReadable hrows).elim

/-- What an operation of an open store does. -/
structure Operates (D : Place → Prop) (s : Session) (x : StoreStep) (q : Query) (store : Store)
    (c : Connection) : Prop where
  ends : Ends s x q store c (s.step x).2
  world : ∃ w', (s.step x).1 = s.withWorld w' ∧ w'.IsOrderly D ∧
    store.Uses s.world c.handle w' ∧
    ((s.step x).2.isOk = false → Store.IsUntouched s.world w')
  memory : ∃ c', store.connection? (s.step x).1.world = some c' ∧
    ((s.step x).2 ≠ x.failed (.failure (.database .noTable)) →
      c'.memory.Misses → c.memory.Misses) ∧
    ((s.step x).2.isOk = true → ¬c'.memory.Misses)

theorem putRow_connections (ho : s.IsOrderly D) (hs : s.store? name = some store)
    (hc : store.connection? s.world = some c) (r : Row) :
    (s.world.putRow c r).world.connections = s.world.connections := by
  obtain ⟨i, hi⟩ := ho.image hs hc
  have hmem := Store.mem_of_connection? hc
  exact (World.putRow_image (ho.world.shares hmem) hi
    ((ho.world.connection hmem).1.made i hi).room r).1.revises.bound.connections

theorem put_operates (ho : s.IsOrderly D) (hs : s.store? name = some store)
    (hc : store.connection? s.world = some c) (r : Record) :
    Operates D s (.put name r) .put store c := by
  obtain ⟨hw', hu, hresult⟩ := Store.put_isOn ho.world (ho.isOn hs hc) r
  obtain ⟨c', hc', hmisses, hfinds⟩ := Store.use_recollects hc
    (f := fun w c => w.putRow c (Row.ofRecord r)) (putRow_connections ho hs hc _)
    (World.putRow_recollects _ _ _)
  have hstep : s.step (.put name r) =
      (s.withWorld (store.put s.world r).1, .done (answer (store.put s.world r).2)) := by
    simp only [step, Session.put]
    rw [onStore_eq hs]
  rw [show Store.use s.world store _ = store.put s.world r from rfl] at hc' hmisses hfinds
  cases hr : (store.put s.world r).2 with
  | ok u =>
    rw [hr] at hresult hstep hfinds
    obtain ⟨halone, rows, hrows, -⟩ := hresult
    have hreply : (s.step (.put name r)).2 = .done (.ok u) := by rw [hstep]; rfl
    refine ⟨?_, ⟨_, congrArg Prod.fst hstep, hw', hu, fun h => ?_⟩, c', ?_, fun _ h => ?_,
      fun _ => hfinds u rfl⟩
    · rw [hreply]
      exact .went halone hrows (fun _ => rfl) fun h => absurd h (by simp [Reply.isOk, Except.toBool])
    · rw [hreply] at h
      exact absurd h (by simp [Reply.isOk, Except.toBool])
    · rw [hstep]
      exact hc'
    · exact absurd h (hfinds u rfl)
  | error e =>
    rw [hr] at hresult hstep hmisses
    obtain ⟨hf, huntouched⟩ := hresult
    have hreply : (s.step (.put name r)).2 = .done (.error (.failure e)) := by rw [hstep]; rfl
    refine ⟨?_, ⟨_, congrArg Prod.fst hstep, hw', hu, fun _ => huntouched⟩, c', ?_, fun hne => ?_,
      fun h => ?_⟩
    · rw [hreply]
      exact .failed (x := .put name r) hf
    · rw [hstep]
      exact hc'
    · refine hmisses fun heq => hne ?_
      rw [hreply, Except.error.inj heq]
      rfl
    · rw [hreply] at h
      exact absurd h (by simp [Reply.isOk, Except.toBool])

/-- The reading operations, which differ in what they make of the rows. -/
theorem reads_operates (ho : s.IsOrderly D) (hs : s.store? name = some store)
    (hc : store.connection? s.world = some c) {α : Type} (decode : Table → Except Failure α)
    (wrap : Answer α → Reply) (hfree : s.world.IsFree c.handle q ↔ s.world.IsReadable c.handle)
    (hfailed : ∀ e, wrap (.error e) = x.failed e) (hisOk : ∀ a, (wrap a).isOk = a.toBool)
    (hdecode : ∀ {rows}, x.CanDecode rows → (decode rows).toBool = true)
    (hundecodable : ∀ {rows e}, decode rows = .error e → ∃ d, e = .undecodable d)
    (hstep : s.step x = (s.withWorld (store.use s.world fun w c => w.readRows c q).1,
      wrap (answer ((store.use s.world fun w c => w.readRows c q).2.bind decode)))) :
    Operates D s x q store c := by
  obtain ⟨hw', hu, hdisk, hresult⟩ := Store.readRows_isOn ho.world (ho.isOn hs hc) q
  have hrests : (s.world.readRows c q).world.connections = s.world.connections := by
    obtain ⟨i, hi⟩ := ho.image hs hc
    rw [(World.readRows_image (ho.world.shares (Store.mem_of_connection? hc)) hi q).1.world]
  obtain ⟨c', hc', hmisses, hfinds⟩ := Store.use_recollects hc
    (f := fun w c => w.readRows c q) hrests (World.readRows_recollects _ _ _)
  have huntouched : Store.IsUntouched s.world
      (store.use s.world fun w c => w.readRows c q).1 := by
    rw [Store.IsUntouched, hdisk]
    exact .refl ho.world.sound.tree
  have hreply := congrArg Prod.snd hstep
  have hworld := congrArg Prod.fst hstep
  simp only at hreply hworld
  cases hr : (store.use s.world fun w c => w.readRows c q).2 with
  | ok rows =>
    rw [hr] at hresult hreply hfinds
    obtain ⟨hreadable, hrows⟩ := hresult
    rw [show (Except.ok rows : Except Failure Table).bind decode = decode rows from rfl] at hreply
    refine ⟨.went (hfree.mpr hreadable) hrows (fun h => ?_) (fun h => ?_),
      ⟨_, hworld, hw', hu, fun _ => huntouched⟩, c', by rw [hworld]; exact hc',
      fun _ h => absurd h (hfinds rows rfl), fun _ => hfinds rows rfl⟩
    · have htrue := hdecode h
      rw [hreply, hisOk]
      cases hd : decode rows with
      | ok a => rfl
      | error e =>
        rw [hd] at htrue
        exact absurd htrue (by simp [Except.toBool])
    · rw [hreply, hisOk] at h
      cases hd : decode rows with
      | ok a =>
        rw [hd] at h
        exact absurd h (by simp [answer, Except.toBool])
      | error e =>
        obtain ⟨d, rfl⟩ := hundecodable hd
        refine ⟨d, ?_⟩
        rw [hreply, hd]
        exact hfailed _
  | error e =>
    rw [hr] at hresult hreply hmisses
    have hreply : (s.step x).2 = x.failed (.failure e) := hreply.trans (hfailed _)
    refine ⟨?_, ⟨_, hworld, hw', hu, fun _ => huntouched⟩, c', by rw [hworld]; exact hc',
      fun hne => hmisses fun heq => hne ?_, fun h => ?_⟩
    · rw [hreply]
      refine .failed ?_
      rw [propext hfree]
      exact hresult
    · rw [hreply, Except.error.inj heq]
    · rw [hreply, StoreStep.isOk_failed] at h
      exact absurd h (by simp)

theorem get_operates (ho : s.IsOrderly D) (hs : s.store? name = some store)
    (hc : store.connection? s.world = some c) (file : Text) :
    Operates D s (.get name file) .get store c := by
  refine reads_operates ho hs hc (Store.recordIn file) .found Iff.rfl
    (fun _ => rfl) (fun _ => rfl) (fun {rows} h => ?_) (fun {rows e} h => ?_) ?_
  · unfold Store.recordIn
    cases hrow : rows.get? file with
    | none => rfl
    | some row =>
      obtain ⟨r, hr⟩ := h row hrow
      simp only [hr]
      rfl
  · unfold Store.recordIn at h
    cases hrow : rows.get? file with
    | none =>
      rw [hrow] at h
      exact absurd h (by simp)
    | some row =>
      rw [hrow] at h
      cases hr : row.record with
      | ok r =>
        simp only [hr] at h
        exact absurd h (by simp [Except.mapError, Except.map])
      | error d =>
        simp only [hr] at h
        exact ⟨d, (Except.error.inj h).symm⟩
  · simp only [step, Session.get]
    rw [onStore_eq hs, Store.get_eq]

theorem records_operates (ho : s.IsOrderly D) (hs : s.store? name = some store)
    (hc : store.connection? s.world = some c) :
    Operates D s (.records name) .list store c := by
  refine reads_operates ho hs hc (fun rows => rows.records.mapError .undecodable) .listed Iff.rfl
    (fun _ => rfl) (fun _ => rfl) (fun {rows} h => ?_) (fun {rows e} h => ?_) ?_
  · obtain ⟨rs, hrs, -⟩ := Table.records_ok h
    rw [hrs]
    rfl
  · cases hrs : rows.records with
    | ok rs =>
      rw [hrs] at h
      exact absurd h (by simp [Except.mapError])
    | error d =>
      rw [hrs] at h
      exact ⟨d, (Except.error.inj h).symm⟩
  · simp only [step, Session.records]
    rw [onStore_eq hs, Store.records_eq]

/-- **Every operation of an open store operates like that.** -/
theorem Calls.operates (ho : s.IsOrderly D) (hx : Calls s x q store c) :
    Operates D s x q store c := by
  obtain ⟨⟨name, hquery, hs⟩, hc⟩ := hx
  cases x with
  | openStore | closeStore => exact absurd hquery (by simp [StoreStep.query?])
  | put n r =>
    obtain ⟨rfl, rfl⟩ := Prod.mk.inj (Option.some.inj hquery)
    exact put_operates ho hs hc r
  | get n file =>
    obtain ⟨rfl, rfl⟩ := Prod.mk.inj (Option.some.inj hquery)
    exact get_operates ho hs hc file
  | records n =>
    obtain ⟨rfl, rfl⟩ := Prod.mk.inj (Option.some.inj hquery)
    exact records_operates ho hs hc

/-- A step that uses a store whose name is unknown, or that is closed, only says so. -/
theorem query_cases (hx : x.query? = some (name, q)) :
    (s.store? name = none ∧ s.step x = (s, x.failed (.noStore name))) ∨
      (∃ store, s.store? name = some store ∧ store.connection? s.world = none ∧
        s.step x = (s, x.failed (.failure (.database .closed)))) ∨
      ∃ store c, s.store? name = some store ∧ Calls s x q store c := by
  cases hs : s.store? name with
  | none =>
    refine .inl ⟨rfl, ?_⟩
    cases x with
    | openStore | closeStore => exact absurd hx (by simp [StoreStep.query?])
    | put n r | get n file | records n =>
      obtain ⟨rfl, -⟩ := Prod.mk.inj (Option.some.inj hx)
      simp only [step, Session.put, Session.get, Session.records, onStore_none hs]
      rfl
  | some store =>
    cases hc : store.connection? s.world with
    | some c => exact .inr (.inr ⟨store, c, rfl, ⟨name, hx, hs⟩, hc⟩)
    | none =>
      refine .inr (.inl ⟨store, rfl, hc, ?_⟩)
      cases x with
      | openStore | closeStore => exact absurd hx (by simp [StoreStep.query?])
      | put n r =>
        obtain ⟨rfl, -⟩ := Prod.mk.inj (Option.some.inj hx)
        simp only [step, Session.put, onStore_eq hs, Store.put, Store.use_closed hc]
        rfl
      | get n file =>
        obtain ⟨rfl, -⟩ := Prod.mk.inj (Option.some.inj hx)
        simp only [step, Session.get, onStore_eq hs, Store.get_eq, Store.use_closed hc]
        rfl
      | records n =>
        obtain ⟨rfl, -⟩ := Prod.mk.inj (Option.some.inj hx)
        simp only [step, Session.records, onStore_eq hs, Store.records_eq, Store.use_closed hc]
        rfl

/-! ## 2. What is left of a failure -/

/-- The stores that were there are open on the same files as before, with the same rows. -/
structure Preserves (s s' : Session) : Prop where
  stores : s'.stores = s.stores
  handle : ∀ {name store}, s.store? name = some store →
    (store.connection? s'.world).map (·.handle) = (store.connection? s.world).map (·.handle)
  rows : ∀ {name store c}, s.store? name = some store → store.connection? s.world = some c →
    s'.world.table? c.handle = s.world.table? c.handle

namespace Preserves

theorem refl (s : Session) : Preserves s s := ⟨rfl, fun _ => rfl, fun _ _ => rfl⟩

theorem store?_eq (hp : Preserves s s') (name : Text) : s'.store? name = s.store? name := by
  rw [store?, store?, hp.stores]

/-- A store that was open is open on the same file. -/
theorem connection (hp : Preserves s s') (hs : s.store? name = some store)
    (hc : store.connection? s.world = some c) :
    ∃ c', store.connection? s'.world = some c' ∧ c'.handle = c.handle := by
  have hmap := hp.handle hs
  rw [hc, Option.map_some, Option.map_eq_some_iff] at hmap
  exact hmap

theorem trans (hp : Preserves s s') (hp' : Preserves s' t) : Preserves s t where
  stores := hp'.stores.trans hp.stores
  handle hs := (hp'.handle ((hp.store?_eq _).trans hs)).trans (hp.handle hs)
  rows hs hc := by
    obtain ⟨c', hc', hsame⟩ := hp.connection hs hc
    rw [← hp.rows hs hc, ← hsame]
    exact hp'.rows ((hp.store?_eq _).trans hs) hc'

theorem calls (hp : Preserves s s') (hx : Calls s x q store c) :
    ∃ c', Calls s' x q store c' ∧ c'.handle = c.handle ∧
      s'.world.table? c'.handle = s.world.table? c.handle := by
  obtain ⟨⟨name, hquery, hs⟩, hc⟩ := hx
  obtain ⟨c', hc', hsame⟩ := hp.connection hs hc
  exact ⟨c', ⟨⟨name, hquery, (hp.store?_eq name).trans hs⟩, hc'⟩, hsame,
    hsame.symm ▸ hp.rows hs hc⟩

/-- **Every operation goes well exactly if it would have before**, if the transactions from outside
are the same. -/
theorem isOk_iff (hp : Preserves s s') (ho : s.IsOrderly D) (ho' : s'.IsOrderly D)
    (hlocks : s'.world.locks = s.world.locks) (hx : Calls s x q store c)
    (hdecode : ∀ rows, s.world.table? c.handle = some rows → x.CanDecode rows) :
    (s'.step x).2.isOk = true ↔ (s.step x).2.isOk = true := by
  obtain ⟨c', hx', hsame, hrows⟩ := hp.calls hx
  rw [(hx.operates ho).ends.isOk_iff hdecode,
    (hx'.operates ho').ends.isOk_iff (by rw [hrows]; exact hdecode), hrows, hsame,
    World.isFree_congr hlocks]

end Preserves

/-- What a failed step leaves: every row, every store and every lock that was there, and no other
lock. -/
structure LeavesNoTrace (s s' : Session) : Prop where
  preserves : Preserves s s'
  tableAt : ∀ p, s'.world.tableAt p = s.world.tableAt p
  locks : s'.world.locks = s.world.locks
  isShared : ∀ n, s'.world.isShared n = s.world.isShared n
  isClaimed : ∀ n, s'.world.isClaimed n = s.world.isClaimed n
  isClosedOff : ∀ n, s'.world.isClosedOff n = s.world.isClosedOff n
  others : ∀ {y q' store' c'}, Calls s y q' store' c' →
    (∀ rows, s.world.table? c'.handle = some rows → y.CanDecode rows) →
    ((s'.step y).2.isOk = true ↔ (s.step y).2.isOk = true)

theorem Preserves.leavesNoTrace (hp : Preserves s s') (ho : s.IsOrderly D)
    (ho' : s'.IsOrderly D) (htables : ∀ p, s'.world.tableAt p = s.world.tableAt p)
    (hlocks : s'.world.locks = s.world.locks) : LeavesNoTrace s s' where
  preserves := hp
  tableAt := htables
  locks := hlocks
  isShared n := by rw [ho.world.isShared_eq, ho'.world.isShared_eq, hlocks]
  isClaimed n := by rw [World.isClaimed, World.isClaimed, hlocks]
  isClosedOff n := by rw [World.isClosedOff, World.isClosedOff, hlocks]
  others hy hdecode := hp.isOk_iff ho ho' hlocks hy hdecode

/-- **A failed operation leaves no trace.** -/
theorem Operates.leavesNoTrace (hx : Operates D s x q store c) (ho : s.IsOrderly D)
    (hs : store.IsOn s.world c.handle) (hfails : (s.step x).2.isOk = false) :
    LeavesNoTrace s (s.step x).1 := by
  obtain ⟨w', hstep, hw', hu, huntouched⟩ := hx.world
  have huntouched := huntouched hfails
  have hentry : ∀ p, w'.disk.entryAt p = s.world.disk.entryAt p := fun p =>
    huntouched.elsewhere id
  have hcontent : ∀ {n}, n < s.world.disk.contents.length →
      w'.disk.contentOf n = s.world.disk.contentOf n := fun hn =>
    huntouched.content hn id fun _ h => h.elim
  have hp : Preserves s (s.withWorld w') := by
    refine ⟨rfl, fun {_ t} _ => hu.connection?_map hs t, fun {_ _ d} ht hd => ?_⟩
    have hown := (ho.world.connection (Store.mem_of_connection? hd)).1
    exact World.table?_of_content (hcontent hown.hosts.number)
  rw [hstep]
  refine hp.leavesNoTrace ho (ho.uses hs hw' hu) (fun p => ?_) hu.locks
  exact World.tableAt_eq_of_content (hentry p) fun n hn =>
    hcontent (ho.world.sound.tree.number hn)

/-- **A store that cannot be opened leaves no trace** but directories and empty files. -/
theorem openStore_leavesNoTrace (ho : s.IsOrderly D) (hspread : IsSpread D) {path : Text}
    (hin : Store.OpensInto D s.world path) (name : Text) (timeout : Binary64)
    {e : SessionError} (hfails : (s.openStore name path timeout).2 = .error e) :
    LeavesNoTrace s (s.openStore name path timeout).1 := by
  have ho' := openStore_orderly ho hspread hin name timeout
  obtain ⟨hopens, hresult⟩ := Store.openAt_orderly ho.world hspread hin timeout
  unfold openStore at hfails ho' ⊢
  cases hr : Store.openAt s.world path timeout with
  | mk w' r =>
  rw [hr] at hopens hresult
  rw [hr] at hfails ho'
  cases r with
  | ok store => exact absurd hfails (by simp)
  | error e =>
  have hp : Preserves s (s.withWorld w') := by
    refine ⟨rfl, fun {n t} ht => ?_, fun {n t d} ht hd => ?_⟩
    · rw [show Store.connection? (s.withWorld w').world t = _ from
        connection?_of_more hopens.connections (ho.known ht)]
    · have hown := (ho.world.connection (Store.mem_of_connection? hd)).1
      cases hplace : d.handle.place with
      | none => exact hopens.alone hown hplace
      | some p =>
        have hafter := (hopens.owns hown).hosts.tableAt_eq hplace
        exact hafter.symm.trans ((hresult p).trans (hown.hosts.tableAt_eq hplace))
  exact hp.leavesNoTrace ho ho' hresult hopens.locks

/-! ## 3. Trying again -/

/-- The session after the transactions that can be ended under some paths have ended. -/
def release (s : Session) (paths : List Text) : Session :=
  paths.foldl (fun s path => s.outside (.unlock path)) s

/-- **What is left when transactions from outside end**: all that the stores had, and the locks that
cannot be ended under one of the paths. -/
theorem release_preserves (ho : s.IsOrderly D) (hspread : IsSpread D) (paths : List Text) :
    (s.release paths).IsOrderly D ∧ Preserves s (s.release paths) ∧
      ∀ l ∈ (s.release paths).world.locks, l ∈ s.world.locks ∧
        ∀ path ∈ paths, l.holder ≠ some path := by
  induction paths generalizing s with
  | nil => exact ⟨ho, .refl s, fun l hl => ⟨hl, fun _ h => absurd h (by simp)⟩⟩
  | cons path rest ih =>
    obtain ⟨hlocks, hcontent⟩ := World.unlock_frees ho.world hspread path
    have hadmits := World.unlock_orderly ho.world hspread path
    have hsame : ∀ t : Store, t.connection? (s.world.unlock path) = t.connection? s.world :=
      fun t => by rw [Store.connection?, Store.connection?, hadmits.connections]
    have hp : Preserves s (s.outside (.unlock path)) := by
      refine ⟨rfl, fun {_ t} _ => congrArg _ (hsame t), fun {_ _ d} _ hd => ?_⟩
      have hown := (ho.world.connection (Store.mem_of_connection? hd)).1
      exact World.table?_of_content (hcontent hown)
    obtain ⟨ho', hp', hrest⟩ := ih (outside_orderly (x := .unlock path) ho hspread trivial)
    refine ⟨ho', hp.trans hp', fun l hl => ?_⟩
    obtain ⟨hl', hne⟩ := hrest l hl
    have hmem : l ∈ (s.world.unlock path).locks := hl'
    rw [hlocks, List.mem_filter] at hmem
    refine ⟨hmem.1, fun p hp => ?_⟩
    rcases List.mem_cons.mp hp with rfl | hp
    · simpa using hmem.2
    · exact hne p hp

/-- Every transaction that uses the file of a handle can be ended under one of the paths. -/
def IsHeldUnder (s : Session) (h : Handle) (paths : List Text) : Prop :=
  ∀ l ∈ s.world.locks, l.handle.file = h.file → l.mode ≠ .deferred →
    ∃ path ∈ paths, l.holder = some path

/-- **An operation that failed goes well when it is tried again** after the transactions that use
its database have ended. -/
theorem Operates.again (hx : Operates D s x q store c) (hcalls : Calls s x q store c)
    (ho : s.IsOrderly D) (hspread : IsSpread D) (hs : store.IsOn s.world c.handle)
    (hfails : (s.step x).2.isOk = false) {rows : Table}
    (hrows : s.world.table? c.handle = some rows) (hdecode : x.CanDecode rows)
    {paths : List Text} (hheld : s.IsHeldUnder c.handle paths) :
    (((s.step x).1.release paths).step x).2.isOk = true := by
  have htrace := hx.leavesNoTrace ho hs hfails
  have ho₁ : (s.step x).1.IsOrderly D := by
    obtain ⟨w', hstep, hw', hu, -⟩ := hx.world
    rw [hstep]
    exact ho.uses hs hw' hu
  obtain ⟨ho₂, hp, hlocks⟩ := release_preserves ho₁ hspread paths
  obtain ⟨c', hcalls', hsame, hrows'⟩ := (htrace.preserves.trans hp).calls hcalls
  rw [hrows] at hrows'
  refine ((hcalls'.operates ho₂).ends.isOk_iff fun rows' h => ?_).mpr ⟨by rw [hrows']; rfl, ?_⟩
  · rw [hrows', Option.some.injEq] at h
    exact h ▸ hdecode
  · refine World.IsLeftAlone.isFree (fun l hl hfile => ?_) q
    by_contra hmode
    obtain ⟨hl, hne⟩ := hlocks l hl
    rw [htrace.locks] at hl
    obtain ⟨path, hpath, hholder⟩ := hheld l hl (hfile.trans (congrArg Handle.file hsame)) hmode
    exact hne path hpath hholder

/-! ## 4. Stores that do not miss the table -/

/-- The store of a name was opened, or an operation of it went well, and since then none has
answered that there is no table. -/
inductive Trusts (D : Place → Prop) (s₀ : Session) (name : Text) : Session → Prop
  | opened {t : Session} (ht : Reaches D s₀ t) (path : Text) (timeout : Binary64)
      (hin : Store.OpensInto D t.world path)
      (hok : (t.openStore name path timeout).2 = .ok ()) :
      Trusts D s₀ name (t.openStore name path timeout).1
  | went {t : Session} (ht : Reaches D s₀ t) {x : StoreStep} {q : Query}
      (hx : x.query? = some (name, q)) (hok : (t.step x).2.isOk = true) :
      Trusts D s₀ name (t.step x).1
  | step {t : Session} (h : Trusts D s₀ name t) (x : StoreStep) (hx : x.IsWithin D t)
      (hfound : (t.step x).2 = x.failed (.failure (.database .noTable)) →
        ∀ q, x.query? ≠ some (name, q)) : Trusts D s₀ name (t.step x).1
  | outside {t : Session} (h : Trusts D s₀ name t) (x : OutsideStep) (hx : x.IsWithin D t) :
      Trusts D s₀ name (t.outside x)

theorem isWithin_of_query (hx : x.query? = some (name, q)) : x.IsWithin D s := by
  cases x with
  | openStore | closeStore => exact absurd hx (by simp [StoreStep.query?])
  | put | get | records => trivial

theorem Trusts.reaches (h : Trusts D s₀ name s) : Reaches D s₀ s := by
  induction h with
  | opened ht path timeout hin _ => exact .step ht (.openStore name path timeout) hin
  | went ht hx _ => exact .step ht _ (isWithin_of_query hx)
  | step _ x hx _ ih => exact .step ih x hx
  | outside _ x hx ih => exact .outside ih x hx

/-- The store of a name does not miss the table, as long as it is open. -/
def Finds (s : Session) (name : Text) : Prop :=
  ∀ store c, s.store? name = some store → store.connection? s.world = some c →
    ¬c.memory.Misses

/-- A store that has just been opened has found the table. -/
theorem finds_opened (ho : s.IsOrderly D) {path : Text} {timeout : Binary64}
    (hok : (s.openStore name path timeout).2 = .ok ()) :
    (s.openStore name path timeout).1.Finds name := by
  intro store c hs hc
  have hspec := Store.openAt_spec ho.world.sound path timeout
  unfold openStore at hok hs hc
  cases hr : Store.openAt s.world path timeout with
  | mk w' r =>
  rw [hr] at hspec hok hs hc
  cases r with
  | error e => exact absurd hok (by simp)
  | ok opened =>
  simp only [store?_setStore, if_true, Option.some.injEq] at hs
  subst hs
  rcases hspec with ⟨e, he, -⟩ | ⟨v, c', -, hopen, hknows, -⟩
  · exact absurd he (by simp)
  · have hworld : ((s.withWorld w').setStore name opened).world = w' := rfl
    rw [hworld, hopen.connection] at hc
    exact Option.some.inj hc ▸ hknows.not_misses

/-- An operation that goes well has found the table. -/
theorem finds_went (ho : s.IsOrderly D) (hx : x.query? = some (name, q))
    (hok : (s.step x).2.isOk = true) : (s.step x).1.Finds name := by
  intro store c hs hc
  rcases query_cases hx with ⟨-, hstep⟩ | ⟨-, -, -, hstep⟩ | ⟨store', c', hs', hcalls⟩
  · rw [hstep, StoreStep.isOk_failed] at hok
    exact absurd hok (by simp)
  · rw [hstep, StoreStep.isOk_failed] at hok
    exact absurd hok (by simp)
  · obtain ⟨-, ⟨w', hstep, -⟩, d, hd, -, hfinds⟩ := hcalls.operates ho
    have hstore : (s.step x).1.store? name = s.store? name := by rw [hstep]; rfl
    obtain rfl : store = store' := by
      rw [hstore, hs'] at hs
      exact (Option.some.inj hs).symm
    exact Option.some.inj (hd.symm.trans hc) ▸ hfinds hok

theorem Finds.call (hf : s.Finds name) (ho : s.IsOrderly D) (hquery : x.query? = some (name', q))
    (hfound : (s.step x).2 = x.failed (.failure (.database .noTable)) → name ≠ name') :
    (s.step x).1.Finds name := by
  rcases query_cases hquery with ⟨-, hstep⟩ | ⟨-, -, -, hstep⟩ | ⟨store', c', hs', hcalls⟩
  · rw [hstep]
    exact hf
  · rw [hstep]
    exact hf
  intro store c hs hc
  obtain ⟨-, ⟨w', hstep, -, hu, -⟩, d, hd, hmisses, -⟩ := hcalls.operates ho
  have hstore : (s.step x).1.store? name = s.store? name := by rw [hstep]; rfl
  rw [hstore] at hs
  by_cases hname : name = name'
  · subst hname
    obtain rfl : store = store' := Option.some.inj (hs.symm.trans hs')
    obtain rfl : d = c := Option.some.inj (hd.symm.trans hc)
    exact fun hmiss => hf _ _ hs hcalls.connection (hmisses (fun heq => hfound heq rfl) hmiss)
  · have hne : store.connection ≠ store'.connection := fun h => hname (ho.names hs hs' h)
    rw [hstep] at hc
    exact hf _ _ hs ((hu.connection?_ne hne).symm.trans hc)

theorem Finds.closeStore (hf : s.Finds name) (ho : s.IsOrderly D) (name' : Text) :
    (s.closeStore name').1.Finds name := by
  intro store c hs hc
  unfold Session.closeStore at hs hc
  cases hs' : s.store? name' with
  | none =>
    rw [hs'] at hs hc
    exact hf _ _ hs hc
  | some store' =>
    rw [hs'] at hs hc
    by_cases hsame : store.connection = store'.connection
    · rw [show Store.connection? (s.withWorld (store'.close s.world)).world store = none from
        Store.connection?_close ho.world hsame] at hc
      exact absurd hc (by simp)
    · exact hf _ _ hs ((Store.connection?_close_ne ho.world hsame).symm.trans hc)

theorem Finds.openStore (hf : s.Finds name) (ho : s.IsOrderly D) (hspread : IsSpread D)
    {path : Text} {timeout : Binary64} (hin : Store.OpensInto D s.world path) :
    (s.openStore name' path timeout).1.Finds name := by
  by_cases hok : name = name' ∧ (s.openStore name' path timeout).2 = .ok ()
  · obtain ⟨rfl, hok⟩ := hok
    exact finds_opened ho hok
  -- The store is one from before, which has kept its connection.
  obtain ⟨hopens, -⟩ := Store.openAt_orderly ho.world hspread hin timeout
  intro store c hs hc
  unfold Session.openStore at hok hs hc
  cases hr : Store.openAt s.world path timeout with
  | mk w' r =>
  rw [hr] at hopens hok hs hc
  have hbefore : s.store? name = some store := by
    cases r with
    | error e => exact hs
    | ok opened =>
      have hname : name ≠ name' := fun heq => hok ⟨heq, rfl⟩
      simp only [store?_setStore, if_neg hname] at hs
      exact hs
  have hworld : store.connection? w' = some c := by
    cases r with
    | error e => exact hc
    | ok opened => exact hc
  exact hf _ _ hbefore
    ((connection?_of_more hopens.connections (ho.known hbefore)).symm.trans hworld)

/-- A step that is none of the store, or finds the table, leaves it so. -/
theorem Finds.step (hf : s.Finds name) (ho : s.IsOrderly D) (hspread : IsSpread D)
    (hx : x.IsWithin D s) (hfound : (s.step x).2 = x.failed (.failure (.database .noTable)) →
      ∀ q, x.query? ≠ some (name, q)) : (s.step x).1.Finds name := by
  cases hquery : x.query? with
  | some nq => exact hf.call ho hquery fun hmissed heq => hfound hmissed nq.2 (heq ▸ hquery)
  | none =>
    cases x with
    | put | get | records => exact absurd hquery (by simp [StoreStep.query?])
    | closeStore name' => exact hf.closeStore ho name'
    | openStore name' path timeout => exact hf.openStore ho hspread hx

/-- **A store misses the table only if it has answered so**, since it was opened and since an
operation of it went well. -/
theorem Trusts.finds (h : Trusts D s₀ name s) (hb : Begins D s₀) : s.Finds name := by
  induction h with
  | opened ht path timeout hin hok => exact finds_opened (ht.isOrderly hb) hok
  | went ht hx hok => exact finds_went (ht.isOrderly hb) hx hok
  | step h x hx hfound ih => exact ih.step (h.reaches.isOrderly hb) hb.spread hx hfound
  | outside h x hx ih =>
    -- No store notices what another program does.
    obtain ⟨v, hstep, hadmits⟩ := outside_admits (h.reaches.isOrderly hb) hb.spread hx
    rw [hstep]
    intro store c hs hc
    have hsame : v.connections = _ := hadmits.connections
    refine ih store c hs (Eq.trans ?_ hc)
    rw [Store.connection?, Store.connection?, ← hsame]
    rfl

/-! ## 5. All of it -/

/-- How the operations on the stores of a session end, and what is left of those that fail. -/
structure FailsCleanly (D : Place → Prop) (s₀ s : Session) : Prop where
  /-- A store has the path and the waiting time that it was opened with. -/
  named : ∀ {name path timeout}, Store.OpensInto D s.world path →
    (s.openStore name path timeout).2 = .ok () →
    ∃ n, (s.openStore name path timeout).1.store? name = some ⟨path, timeout, n⟩
  /-- A store that is closed says so, and that is all. -/
  closed : ∀ {x name q store}, x.query? = some (name, q) → s.store? name = some store →
    store.connection? s.world = none →
    s.step x = (s, x.failed (.failure (.database .closed)))
  /-- One that is open succeeds exactly if the table is there and nobody is in its way. -/
  succeeds : ∀ {x q store c}, Calls s x q store c →
    (∀ rows, s.world.table? c.handle = some rows → x.CanDecode rows) →
    ((s.step x).2.isOk = true ↔
      (s.world.table? c.handle).isSome = true ∧ s.world.IsFree c.handle q)
  /-- Otherwise it says what it lacks, or that it met a row that is none of a record. -/
  reports : ∀ {x q store c}, Calls s x q store c → (s.step x).2.isOk = false →
    ∃ e, (s.step x).2 = x.failed (.failure e) ∧
      (store.Fails s.world c.handle q (s.world.IsFree c.handle q) e ∨
        (∃ d, e = .undecodable d) ∧
          ∃ rows, s.world.table? c.handle = some rows ∧ ¬x.CanDecode rows)
  /-- The table is missed only when it is missing, by a store that has not missed it before. -/
  misses : ∀ {x name q store c}, x.query? = some (name, q) → s.store? name = some store →
    store.connection? s.world = some c → Trusts D s₀ name s →
    (s.step x).2 = x.failed (.failure (.database .noTable)) → s.world.table? c.handle = none
  /-- A failed operation leaves every entry and every content as it was. -/
  untouched : ∀ {x q store c}, Calls s x q store c → (s.step x).2.isOk = false →
    Store.IsUntouched s.world (s.step x).1.world
  leaves : ∀ {x q store c}, Calls s x q store c → (s.step x).2.isOk = false →
    LeavesNoTrace s (s.step x).1
  /-- It goes well when it is tried again after the transactions in its way have ended. -/
  again : ∀ {x q store c rows paths}, Calls s x q store c → (s.step x).2.isOk = false →
    s.world.table? c.handle = some rows → x.CanDecode rows → s.IsHeldUnder c.handle paths →
    (((s.step x).1.release paths).step x).2.isOk = true
  /-- A database that has the table can be opened exactly if nobody has closed it off. -/
  opens : ∀ {name path timeout p n rows}, Store.OpensInto D s.world path →
    Store.place? s.world path = some p → Text.nul ∉ path →
    s.world.disk.entryAt p = some (.file n) → s.world.table? ⟨n, some p⟩ = some rows →
    (s.world.IsReadable ⟨n, some p⟩ → (s.openStore name path timeout).2 = .ok ()) ∧
      (¬s.world.IsReadable ⟨n, some p⟩ →
        (s.openStore name path timeout).2 = .error (.failure (.contention timeout path)))
  unopened : ∀ {name path timeout e}, Store.OpensInto D s.world path →
    (s.openStore name path timeout).2 = .error e →
    LeavesNoTrace s (s.openStore name path timeout).1

/-- The answer to an attempt to open a store. -/
theorem openStore_answer (s : Session) (name path : Text) (timeout : Binary64) :
    (s.openStore name path timeout).2 =
      answer ((Store.openAt s.world path timeout).2.map fun _ => ()) := by
  unfold openStore
  split
  · next heq => rw [heq]; rfl
  · next heq => rw [heq]; rfl

theorem named_opened (ho : s.IsOrderly D) (hspread : IsSpread D) {path : Text}
    {timeout : Binary64} (hin : Store.OpensInto D s.world path)
    (hok : (s.openStore name path timeout).2 = .ok ()) :
    ∃ n, (s.openStore name path timeout).1.store? name = some ⟨path, timeout, n⟩ := by
  obtain ⟨-, hresult⟩ := Store.openAt_orderly ho.world hspread hin timeout
  unfold openStore at hok ⊢
  cases hr : Store.openAt s.world path timeout with
  | mk w' r =>
  rw [hr] at hresult hok
  cases r with
  | error e => exact absurd hok (by simp)
  | ok store =>
    obtain ⟨rfl, -⟩ := hresult
    exact ⟨s.world.connections.length, by simp [store?_setStore]⟩

theorem Ends.reports (he : Ends s x q store c r) (hfails : r.isOk = false) :
    ∃ e, r = x.failed (.failure e) ∧
      (store.Fails s.world c.handle q (s.world.IsFree c.handle q) e ∨
        (∃ d, e = .undecodable d) ∧
          ∃ rows, s.world.table? c.handle = some rows ∧ ¬x.CanDecode rows) := by
  cases he with
  | went hfree hrows hok hundecodable =>
    obtain ⟨d, rfl⟩ := hundecodable hfails
    refine ⟨_, rfl, .inr ⟨⟨d, rfl⟩, _, hrows, fun hdecode => ?_⟩⟩
    rw [hok hdecode] at hfails
    exact absurd hfails (by simp)
  | failed hf => exact ⟨_, rfl, .inl hf⟩

/-- **In every session that comes about, what fails does so for a reason and leaves no trace.** -/
theorem fails_cleanly (hb : Begins D s₀) (hr : Reaches D s₀ s) : FailsCleanly D s₀ s := by
  have ho := hr.isOrderly hb
  have hon : ∀ {x q store c}, Calls s x q store c → store.IsOn s.world c.handle := by
    rintro x q store c ⟨⟨name, -, hs⟩, hc⟩
    exact ho.isOn hs hc
  refine {
    named := fun hin hok => named_opened ho hb.spread hin hok
    closed := fun {x name q store} hx hs hc => ?_
    succeeds := fun hcalls hdecode => (hcalls.operates ho).ends.isOk_iff hdecode
    reports := fun hcalls hfails => (hcalls.operates ho).ends.reports hfails
    misses := fun {x name q store c} hx hs hc htrusts hreply => ?_
    untouched := fun {x q store c} hcalls hfails => ?_
    leaves := fun hcalls hfails => (hcalls.operates ho).leavesNoTrace ho (hon hcalls) hfails
    again := fun hcalls hfails hrows hdecode hheld =>
      (hcalls.operates ho).again hcalls ho hb.spread (hon hcalls) hfails hrows hdecode hheld
    opens := fun {name path timeout p n rows} hin hplace hnul hfile hrows => ?_
    unopened := fun hin hfails => openStore_leavesNoTrace ho hb.spread hin _ _ hfails }
  · rcases query_cases hx with ⟨hnone, -⟩ | ⟨-, -, -, hstep⟩ | ⟨store', c, hs', hcalls⟩
    · rw [hnone] at hs
      exact absurd hs (by simp)
    · exact hstep
    · obtain rfl := Option.some.inj (hs.symm.trans hs')
      rw [hcalls.connection] at hc
      exact absurd hc (by simp)
  · have hcalls : Calls s x q store c := ⟨⟨name, hx, hs⟩, hc⟩
    have hfails : (s.step x).2.isOk = false := by rw [hreply, StoreStep.isOk_failed]
    obtain ⟨e, he, hcause⟩ := (hcalls.operates ho).ends.reports hfails
    obtain rfl := x.failed_inj (he.symm.trans hreply)
    rcases hcause with hf | ⟨⟨d, hd⟩, -⟩
    · cases hf with
      | noTable hmissing =>
        rcases hmissing with hnone | ⟨-, c', hc', hblind⟩
        · exact hnone
        · exact absurd hblind.misses (htrusts.finds hb store c' hs hc')
    · exact absurd hd (by simp)
  · obtain ⟨w', hstep, -, -, huntouched⟩ := (hcalls.operates ho).world
    rw [hstep]
    exact huntouched hfails
  · have hh : s.world.Hosts ⟨n, some p⟩ :=
      ⟨ho.world.sound.tree.number hfile, by rintro q ⟨⟩; exact hfile⟩
    have hresult := Store.openAt_of_table ho.world hin hplace hnul hh rfl hrows timeout
    have hclosed : s.world.isClosedOff n = false ↔ s.world.IsReadable ⟨n, some p⟩ :=
      ho.world.isClosedOff_eq_false (h := ⟨n, some p⟩)
    refine ⟨fun hreadable => ?_, fun hbusy => ?_⟩
    · rw [openStore_answer, hresult, if_neg (by simp [hclosed.mpr hreadable])]
      rfl
    · rw [openStore_answer, hresult, if_pos (by simpa using mt hclosed.mp hbusy)]
      rfl

/-- A store at an empty root whose database is closed off. -/
def lockedRoot : Session :=
  (emptyRoot.step (.openStore "s" "/x.db" (.finite false 5 0))).1.outside (.lock "/x.db" .exclusive)

theorem lockedRoot_reached : Reaches (· = (["x.db"] : Place)) emptyRoot lockedRoot :=
  .outside (.step .refl (.openStore "s" "/x.db" (.finite false 5 0)) emptyRoot_opensInto)
    (.lock "/x.db" .exclusive) (World.leadsInto_of_place (by decide))

theorem fails_cleanly_lockedRoot :
    Begins (· = (["x.db"] : Place)) emptyRoot ∧
      Reaches (· = (["x.db"] : Place)) emptyRoot lockedRoot ∧
      FailsCleanly (· = (["x.db"] : Place)) emptyRoot lockedRoot ∧
      (lockedRoot.put "s" ⟨"/a.c", "cc", [], "/"⟩).2 =
        .error (.failure (.contention (.finite false 5 0) "/x.db")) :=
  ⟨emptyRoot_begins, lockedRoot_reached, fails_cleanly emptyRoot_begins lockedRoot_reached,
    by decide⟩

/-- A store that has missed its table. -/
def droppedRoot : Session :=
  (((emptyRoot.step (.openStore "s" "/x.db" (.finite false 5 0))).1.outside (.drop "/x.db")).step
    (.put "s" ⟨"/a.c", "cc", [], "/"⟩)).1

/-- Another store has made the table again, and now the database is closed off. -/
def missedRoot : Session :=
  (droppedRoot.step (.openStore "t" "/x.db" (.finite false 5 0))).1.outside
    (.lock "/x.db" .exclusive)

theorem missedRoot_reached : Reaches (· = (["x.db"] : Place)) emptyRoot missedRoot := by
  have hdropped : Reaches (· = (["x.db"] : Place)) emptyRoot droppedRoot :=
    .step (.outside (.step .refl (.openStore "s" "/x.db" (.finite false 5 0)) emptyRoot_opensInto)
      (.drop "/x.db") (World.leadsInto_of_place (by decide)))
      (.put "s" ⟨"/a.c", "cc", [], "/"⟩) trivial
  exact .outside (.step hdropped (.openStore "t" "/x.db" (.finite false 5 0))
    (Store.opensInto_of_place (by decide) (by decide)))
    (.lock "/x.db" .exclusive) (World.leadsInto_of_place (by decide))

/-- A lock need not be reported as one, by a store that has missed its table. -/
theorem missedRoot_noTable :
    ¬∀ {s name store c r e}, Reaches (· = (["x.db"] : Place)) emptyRoot s →
      s.store? name = some store → store.connection? s.world = some c →
      (s.world.table? c.handle).isSome = true → ¬s.world.IsLeftAlone c.handle →
      (s.put name r).2 = .error (.failure e) → e = .contention store.timeout store.path := by
  intro h
  have hstore : missedRoot.store? "s" = some ⟨"/x.db", .finite false 5 0, 0⟩ := by decide
  have hopen : (Store.connection? missedRoot.world ⟨"/x.db", .finite false 5 0, 0⟩).map (·.handle) =
      some ⟨0, some ["x.db"]⟩ := by decide
  have hreply : (missedRoot.put "s" ⟨"/a.c", "cc", [], "/"⟩).2 =
      .error (.failure (.database .noTable)) := by decide
  obtain ⟨c, hc, hhandle⟩ := Option.map_eq_some_iff.mp hopen
  refine absurd (h missedRoot_reached hstore hc ?_ ?_ hreply) (by simp)
  · rw [hhandle]
    decide
  · rw [hhandle]
    unfold World.IsLeftAlone
    decide

/-- A store whose undo file has no room, since another store has its directory there. -/
def crowdedRoot : Session :=
  ((emptyRoot.step (.openStore "s" "/x.db" (.finite false 5 0))).1.step
    (.openStore "t" "/x.db-journal/y.db" (.finite false 5 0))).1

/-- **Not every operation ends plainly.**  A store that has missed its table need not report a lock
as one, and a store need not succeed with the table there and nobody in its way, if a directory has
come where its undo file goes. -/
theorem not_fails_plainly :
    (¬∀ {s name store c r e}, Reaches (· = (["x.db"] : Place)) emptyRoot s →
      s.store? name = some store → store.connection? s.world = some c →
      (s.world.table? c.handle).isSome = true → ¬s.world.IsLeftAlone c.handle →
      (s.put name r).2 = .error (.failure e) → e = .contention store.timeout store.path) ∧
    ¬∀ (steps : List StoreStep) {s name store c r},
      s = steps.foldl (fun s x => (s.step x).1) emptyRoot →
      s.store? name = some store → store.connection? s.world = some c →
      (s.world.table? c.handle).isSome = true → s.world.IsLeftAlone c.handle →
      (s.put name r).2 = .ok () := by
  refine ⟨missedRoot_noTable, fun h => ?_⟩
  have hstore : crowdedRoot.store? "s" = some ⟨"/x.db", .finite false 5 0, 0⟩ := by decide +kernel
  have hopen : (Store.connection? crowdedRoot.world ⟨"/x.db", .finite false 5 0, 0⟩).map
      (·.handle) = some ⟨0, some ["x.db"]⟩ := by decide +kernel
  have hreply : (crowdedRoot.put "s" ⟨"/a.c", "cc", [], "/"⟩).2 ≠ .ok () := by decide +kernel
  obtain ⟨c, hc, hhandle⟩ := Option.map_eq_some_iff.mp hopen
  refine hreply (h [.openStore "s" "/x.db" (.finite false 5 0),
    .openStore "t" "/x.db-journal/y.db" (.finite false 5 0)] rfl hstore hc ?_ ?_)
  · rw [hhandle]
    decide +kernel
  · rw [hhandle]
    unfold World.IsLeftAlone
    decide +kernel

end Session

end CompileJournal
