import CompileJournal.Session
import CompileJournal.Proofs.Journal.InStep
import CompileJournal.Proofs.Journal.Outsiders
import CompileJournal.Proofs.World.Small

/-!
# Sessions step by step

A session is asked to open, use and close its stores, and other programs do things to the databases
meanwhile.  From a session that has just begun, every step leads to one with an orderly world in
which each open store is on its database, as long as no database comes to lie where another one has
its undo file or its log, and no directory does.

* `StoreStep`, `OutsideStep`, `Session.step`, `Session.outside`: what can be done;
* `Session.Begins`, `Session.Reaches`: the sessions that come about;
* `Session.IsOrderly`: what holds in all of them;
* `Session.step_orderly`, `Session.outside_orderly`, `Reaches.isOrderly`;
* `Reaches.isInStep`: what the stores remember of their databases can be trusted.
-/

namespace CompileJournal

/-! ## 1. What is done in a session -/

/-- What a session is asked to do with its stores. -/
inductive StoreStep where
  | openStore (name path : Text) (timeout : Binary64)
  | closeStore (name : Text)
  | put (name : Text) (r : Record)
  | get (name file : Text)
  | records (name : Text)
  deriving DecidableEq, Repr

/-- What another program does meanwhile. -/
inductive OutsideStep where
  | lock (path : Text) (mode : LockMode)
  | unlock (path : Text)
  | put (path : Text) (r : Row)
  | drop (path : Text)
  | rows (path : Text)
  deriving DecidableEq, Repr

/-- The answer to a step. -/
inductive Reply where
  | done (a : Session.Answer Unit)
  | found (a : Session.Answer (Option Record))
  | listed (a : Session.Answer (List Record))

/-- The same error as the answer to each kind of step. -/
def StoreStep.failed (e : SessionError) : StoreStep → Reply
  | openStore .. | closeStore _ | put .. => .done (.error e)
  | get .. => .found (.error e)
  | records _ => .listed (.error e)

namespace Session

/-- The session after a step, and the answer. -/
def step (s : Session) : StoreStep → Session × Reply
  | .openStore name path timeout =>
    ((s.openStore name path timeout).1, .done (s.openStore name path timeout).2)
  | .closeStore name => ((s.closeStore name).1, .done (s.closeStore name).2)
  | .put name r => ((s.put name r).1, .done (s.put name r).2)
  | .get name file => ((s.get name file).1, .found (s.get name file).2)
  | .records name => ((s.records name).1, .listed (s.records name).2)

/-- The session after another program did something. -/
def outside (s : Session) : OutsideStep → Session
  | .lock path mode => s.withWorld (s.world.lock path mode).1
  | .unlock path => s.withWorld (s.world.unlock path)
  | .put path r => s.withWorld (s.world.visitPut path r).1
  | .drop path => s.withWorld (s.world.visitDrop path).1
  | .rows path => s.withWorld (s.world.visitRows path).1

end Session

/-- A step opens only databases of `D`, and makes no directory aside one of them. -/
def StoreStep.IsWithin (D : Place → Prop) (s : Session) : StoreStep → Prop
  | openStore _ path _ => Store.OpensInto D s.world path
  | _ => True

/-- Another program opens only databases of `D`. -/
def OutsideStep.IsWithin (D : Place → Prop) (s : Session) : OutsideStep → Prop
  | lock path _ | put path _ | drop path | rows path => World.LeadsInto D s.world path
  | unlock _ => True

namespace Session

variable {D : Place → Prop} {s : Session} {w' : World} {name name' : Text}
  {store store' : Store}

/-- A session that has just begun.  Nothing lies where the databases of `D` have their undo files
and logs, no two of them are in each other's way, and those that are there can be opened and
changed. -/
structure Begins (D : Place → Prop) (s : Session) : Prop where
  spread : IsSpread D
  sound : s.world.IsSound
  stores : s.stores = []
  connections : s.world.connections = []
  locks : s.world.locks = []
  apart : ∀ {p x}, D p → LiesAside x p → s.world.disk.entryAt x = none
  made : ∀ {p n i}, D p → s.world.disk.entryAt p = some (.file n) →
    s.world.disk.contentOf n = .database i → IsMade ⟨n, some p⟩ i

/-- The sessions that come about from one, by steps of its own and of other programs. -/
inductive Reaches (D : Place → Prop) (s : Session) : Session → Prop
  | refl : Reaches D s s
  | step {t : Session} (h : Reaches D s t) (x : StoreStep) (hx : x.IsWithin D t) :
      Reaches D s (t.step x).1
  | outside {t : Session} (h : Reaches D s t) (x : OutsideStep) (hx : x.IsWithin D t) :
      Reaches D s (t.outside x)

/-! ## 2. What holds all along -/

/-- The world is orderly, each open store is on a database, and no two stores have a connection or
a private database in common. -/
structure IsOrderly (D : Place → Prop) (s : Session) : Prop where
  world : s.world.IsOrderly D
  known : ∀ {name store}, s.store? name = some store →
    store.connection < s.world.connections.length
  image : ∀ {name store c}, s.store? name = some store → store.connection? s.world = some c →
    ∃ i, s.world.content c.handle = .database i
  names : ∀ {name name' store store'}, s.store? name = some store →
    s.store? name' = some store' → store.connection = store'.connection → name = name'
  alone : ∀ {name name' store store' c c'}, s.store? name = some store →
    s.store? name' = some store' → store.connection? s.world = some c →
    store'.connection? s.world = some c' → c.handle.place = none → c'.handle = c.handle →
    name = name'

theorem store?_setStore (s : Session) (name : Text) (store : Store) (name' : Text) :
    (s.setStore name store).store? name' =
      if name' = name then some store else s.store? name' := by
  unfold store? setStore
  by_cases hname : name' = name
  · simp [hname]
  · have hbeq : (name' == name) = false := by simpa using hname
    rw [if_neg hname, List.lookup_cons, hbeq]
    exact (Disk.lookup_filter_fst s.stores (fun k => decide (k ≠ name)) name').trans
      (by simp [hname])

/-- A session that has just begun is orderly. -/
theorem Begins.isOrderly (hb : Begins D s) : s.IsOrderly D := by
  have hnone : ∀ name, s.store? name = none := fun name => by simp [store?, hb.stores]
  refine ⟨⟨hb.sound, fun hD hu he => ?_, fun hD hl => hb.apart hD (.inr hl), hb.made,
    fun hc => ?_, fun hl => ?_, ?_⟩, fun h => ?_, fun h => ?_, fun h => ?_, fun h => ?_⟩
  · rw [hb.apart hD (.inl hu)] at he
    exact absurd he (by simp)
  · rw [hb.connections] at hc
    exact absurd hc (by simp)
  · rw [hb.locks] at hl
    exact absurd hl (by simp)
  · rw [hb.locks]
    exact List.Pairwise.nil
  all_goals
    rw [hnone] at h
    exact absurd h (by simp)

/-- A store of an orderly session that is open is on its database. -/
theorem IsOrderly.isOn (ho : s.IsOrderly D) (hs : s.store? name = some store) {c : Connection}
    (hc : store.connection? s.world = some c) : store.IsOn s.world c.handle :=
  ⟨⟨c, hc, rfl⟩, ho.image hs hc⟩

/-- **A session is as orderly in another orderly world**, if no store has another file there and
every database is still one. -/
theorem IsOrderly.withWorld (ho : s.IsOrderly D) (hw' : w'.IsOrderly D)
    (hlength : s.world.connections.length ≤ w'.connections.length)
    (hhandle : ∀ {store : Store} {c'}, store.connection < s.world.connections.length →
      store.connection? w' = some c' →
      ∃ c, store.connection? s.world = some c ∧ c'.handle = c.handle)
    (himage : ∀ {g}, s.world.Owns D g → (∃ i, s.world.content g = .database i) →
      ∃ i, w'.content g = .database i) : (s.withWorld w').IsOrderly D where
  world := hw'
  known h := Nat.lt_of_lt_of_le (ho.known h) hlength
  image h hc' := by
    obtain ⟨c, hc, hsame⟩ := hhandle (ho.known h) hc'
    rw [hsame]
    exact himage (ho.world.connection (Store.mem_of_connection? hc)).1 (ho.image h hc)
  names h h' hsame := ho.names h h' hsame
  alone h h' hc hc' hnone hsame := by
    obtain ⟨d, hd, hdc⟩ := hhandle (ho.known h) hc
    obtain ⟨d', hd', hdc'⟩ := hhandle (ho.known h') hc'
    rw [hdc] at hnone hsame
    rw [hdc'] at hsame
    exact ho.alone h h' hd hd' hnone hsame

/-- What other programs do keeps a session orderly. -/
theorem IsOrderly.admits (ho : s.IsOrderly D) (ha : World.Admits D s.world w') :
    (s.withWorld w').IsOrderly D := by
  refine ho.withWorld ha.orderly (Nat.le_of_eq (congrArg List.length ha.connections).symm)
    (fun {store c'} _ hc' => ⟨c', ?_, rfl⟩) ha.image
  rw [← hc', Store.connection?, Store.connection?, ha.connections]

/-- Another program changes nothing but the world, as far as it is admitted to. -/
theorem outside_admits (ho : s.IsOrderly D) (hspread : IsSpread D) {x : OutsideStep}
    (hx : x.IsWithin D s) : ∃ v, s.outside x = s.withWorld v ∧ World.Admits D s.world v := by
  cases x with
  | lock path mode => exact ⟨_, rfl, World.lock_orderly ho.world hspread hx mode⟩
  | unlock path => exact ⟨_, rfl, World.unlock_orderly ho.world hspread path⟩
  | put path r => exact ⟨_, rfl, World.visitPut_orderly ho.world hspread hx r⟩
  | drop path => exact ⟨_, rfl, World.visitDrop_orderly ho.world hspread hx⟩
  | rows path => exact ⟨_, rfl, World.visitRows_orderly ho.world hspread hx⟩

/-- **Other programs keep a session orderly.** -/
theorem outside_orderly (ho : s.IsOrderly D) (hspread : IsSpread D) {x : OutsideStep}
    (hx : x.IsWithin D s) : (s.outside x).IsOrderly D := by
  obtain ⟨v, hstep, hadmits⟩ := outside_admits ho hspread hx
  rw [hstep]
  exact ho.admits hadmits

/-! ## 3. The steps of a session -/

/-- An operation of a store that is open keeps a session orderly. -/
theorem IsOrderly.uses (ho : s.IsOrderly D) {h : Handle} (hs : store.IsOn s.world h)
    (hw' : w'.IsOrderly D) (hu : store.Uses s.world h w') : (s.withWorld w').IsOrderly D := by
  obtain ⟨c, -, hset⟩ := hu.connection
  refine ho.withWorld hw' (Nat.le_of_eq (by rw [hset, List.length_set])) (fun {t c'} _ hc' => ?_)
    fun hg hi => hu.image ho.world.sound (hs.owns ho.world) hg hi
  have hmap := hu.connection?_map hs t
  rw [hc', Option.map_some, eq_comm, Option.map_eq_some_iff] at hmap
  obtain ⟨c, hc, hsame⟩ := hmap
  exact ⟨c, hc, hsame.symm⟩

/-- An operation of a store leaves the session that has the world it leaves. -/
theorem onStore_eq (hs : s.store? name = some store) {α : Type}
    (f : World → Store → World × Except Failure α) :
    s.onStore name f = (s.withWorld (f s.world store).1, answer (f s.world store).2) := by
  rw [onStore, hs]
  rfl

theorem onStore_none (hs : s.store? name = none) {α : Type}
    (f : World → Store → World × Except Failure α) :
    s.onStore name f = (s, .error (.noStore name)) := by
  rw [onStore, hs]

/-- What an operation of a store has to leave, if the store is open and if it is closed. -/
theorem onStore_orderly (ho : s.IsOrderly D) {α : Type}
    {f : World → Store → World × Except Failure α}
    (hopen : ∀ {store h}, store.IsOn s.world h →
      (f s.world store).1.IsOrderly D ∧ store.Uses s.world h (f s.world store).1)
    (hclosed : ∀ {store : Store}, store.connection? s.world = none →
      (f s.world store).1 = s.world) : (s.onStore name f).1.IsOrderly D := by
  cases hs : s.store? name with
  | none =>
    rw [onStore_none hs]
    exact ho
  | some store =>
    rw [onStore_eq hs]
    cases hc : store.connection? s.world with
    | none =>
      rw [hclosed hc]
      exact ho
    | some c =>
      obtain ⟨hw', hu⟩ := hopen (ho.isOn hs hc)
      exact ho.uses (ho.isOn hs hc) hw' hu

/-- Closing a store keeps a session orderly. -/
theorem closeStore_orderly (ho : s.IsOrderly D) (name : Text) :
    (s.closeStore name).1.IsOrderly D := by
  unfold closeStore
  split
  · exact ho
  next store hs =>
  have hlength : (store.close s.world).connections.length = s.world.connections.length := by
    rw [Store.close_eq ho.world]
    split
    · exact List.length_set
    · rfl
  have hdisk : (store.close s.world).disk = s.world.disk := by
    rw [Store.close_eq ho.world]
    split
    · rfl
    · rfl
  refine ho.withWorld (Store.close_orderly ho.world store) (Nat.le_of_eq hlength.symm)
    (fun {t c'} _ hc' => ⟨c', ?_, rfl⟩) fun {g} _ hi => ?_
  · by_cases hsame : t.connection = store.connection
    · rw [Store.connection?_close ho.world hsame] at hc'
      exact absurd hc' (by simp)
    · rw [← Store.connection?_close_ne ho.world hsame]
      exact hc'
  · rw [World.content, hdisk]
    exact hi

/-- What was connected is so after more has been connected. -/
theorem connection?_of_more {w w' : World} (hmore : w.connections <+: w'.connections)
    (hknown : store.connection < w.connections.length) :
    store.connection? w' = store.connection? w := by
  obtain ⟨more, hmore⟩ := hmore
  rw [Store.connection?, Store.connection?, ← hmore, List.getElem?_append_left hknown]

/-- An attempt to open a store keeps a session orderly. -/
theorem IsOrderly.opens (ho : s.IsOrderly D) {target : Option Place}
    (hopens : Store.Opens D s.world target w') : (s.withWorld w').IsOrderly D :=
  ho.withWorld hopens.orderly hopens.connections.length_le
    (fun {_ c'} hknown hc' => ⟨c', (connection?_of_more hopens.connections hknown).symm.trans hc',
      rfl⟩) hopens.image

/-- A new store keeps a session orderly. -/
theorem IsOrderly.opened (ho : s.IsOrderly D) {target : Option Place}
    (hopens : Store.Opens D s.world target w') {h : Handle}
    (hstore : store.connection = s.world.connections.length)
    (hopened : Store.IsOpened s.world target w' store h) (name : Text) :
    ((s.withWorld w').setStore name store).IsOrderly D := by
  have ho' := ho.opens hopens
  obtain ⟨⟨d, hd, hdh⟩, himage⟩ := hopened.isOn
  have hold : ∀ {n t}, s.store? n = some t → t.connection ≠ store.connection := by
    intro n t ht hsame
    exact absurd (ho.known ht) (by rw [hsame, hstore]; exact Nat.lt_irrefl _)
  -- A new private database has a new file, which no other store can have.
  have hnew : ∀ {n t c}, s.store? n = some t → t.connection? w' = some c → h.place = none →
      c.handle ≠ h := by
    intro n t c ht hc hnone hsame
    rw [connection?_of_more hopens.connections (ho.known ht)] at hc
    have hlt := (ho.world.connection (Store.mem_of_connection? hc)).1.hosts.number
    have hle := (hopened.alone hnone).1
    rw [hsame] at hlt
    exact absurd hlt (Nat.not_lt.mpr hle)
  have hcases : ∀ {n t}, ((s.withWorld w').setStore name store).store? n = some t →
      n = name ∧ t = store ∨ n ≠ name ∧ s.store? n = some t := by
    intro n t ht
    rw [store?_setStore] at ht
    split at ht
    · next hn => exact .inl ⟨hn, (Option.some.inj ht).symm⟩
    · next hn => exact .inr ⟨hn, ht⟩
  refine ⟨hopens.orderly, fun {n t} ht => ?_, fun {n t c} ht hc => ?_,
    fun {n n' t t'} ht ht' hsame => ?_, fun {n n' t t' c c'} ht ht' hc hc' hnone hsame => ?_⟩
  · rcases hcases ht with ⟨-, rfl⟩ | ⟨-, ht⟩
    · exact Store.lt_length hd
    · exact ho'.known ht
  · rcases hcases ht with ⟨-, rfl⟩ | ⟨-, ht⟩
    · obtain rfl : d = c := Option.some.inj (hd.symm.trans hc)
      exact hdh ▸ himage
    · exact ho'.image ht hc
  · rcases hcases ht with ⟨rfl, rfl⟩ | ⟨-, hs⟩
    · rcases hcases ht' with ⟨rfl, -⟩ | ⟨-, hs'⟩
      · rfl
      · exact absurd hsame.symm (hold hs')
    · rcases hcases ht' with ⟨rfl, rfl⟩ | ⟨-, hs'⟩
      · exact absurd hsame (hold hs)
      · exact ho'.names hs hs' hsame
  · rcases hcases ht with ⟨rfl, rfl⟩ | ⟨-, hs⟩
    · obtain rfl : d = c := Option.some.inj (hd.symm.trans hc)
      rcases hcases ht' with ⟨rfl, -⟩ | ⟨-, hs'⟩
      · rfl
      · exact absurd (hsame.trans hdh) (hnew hs' hc' (hdh ▸ hnone))
    · rcases hcases ht' with ⟨rfl, rfl⟩ | ⟨-, hs'⟩
      · obtain rfl : d = c' := Option.some.inj (hd.symm.trans hc')
        have hch : c.handle = h := hsame.symm.trans hdh
        exact absurd hch (hnew hs hc (hch ▸ hnone))
      · exact ho'.alone hs hs' hc hc' hnone hsame

/-- Opening a store keeps a session orderly. -/
theorem openStore_orderly (ho : s.IsOrderly D) (hspread : IsSpread D) {path : Text}
    (hin : Store.OpensInto D s.world path) (name : Text) (timeout : Binary64) :
    (s.openStore name path timeout).1.IsOrderly D := by
  obtain ⟨hopens, hresult⟩ := Store.openAt_orderly ho.world hspread hin timeout
  unfold openStore
  cases hr : Store.openAt s.world path timeout with
  | mk w' r =>
  rw [hr] at hopens hresult
  cases r with
  | error e => exact ho.opens hopens
  | ok store =>
    obtain ⟨rfl, -, h, hopened⟩ := hresult
    exact ho.opened hopens rfl hopened name

/-- **Every step of a session keeps it orderly.** -/
theorem step_orderly (ho : s.IsOrderly D) (hspread : IsSpread D) {x : StoreStep}
    (hx : x.IsWithin D s) : (s.step x).1.IsOrderly D := by
  have hclosed : ∀ {store : Store} {α : Type} (f : World → Connection → Turn α),
      store.connection? s.world = none → (store.use s.world f).1 = s.world := fun f hc => by
    rw [Store.use_closed hc]
  cases x with
  | openStore name path timeout => exact openStore_orderly ho hspread hx name timeout
  | closeStore name => exact closeStore_orderly ho name
  | put name r =>
    refine onStore_orderly ho (fun hs => ?_) fun hc => hclosed _ hc
    obtain ⟨hw', hu, -⟩ := Store.put_isOn ho.world hs r
    exact ⟨hw', hu⟩
  | get name file =>
    refine onStore_orderly ho (fun hs => ?_) fun hc => ?_
    · rw [Store.get_eq]
      obtain ⟨hw', hu, -⟩ := Store.readRows_isOn ho.world hs .get
      exact ⟨hw', hu⟩
    · rw [Store.get_eq]
      exact hclosed _ hc
  | records name =>
    refine onStore_orderly ho (fun hs => ?_) fun hc => ?_
    · rw [Store.records_eq]
      obtain ⟨hw', hu, -⟩ := Store.readRows_isOn ho.world hs .list
      exact ⟨hw', hu⟩
    · rw [Store.records_eq]
      exact hclosed _ hc

/-- **Every session that comes about is orderly.** -/
theorem Reaches.isOrderly {t : Session} (hr : Reaches D s t) (hb : Begins D s) :
    t.IsOrderly D := by
  induction hr with
  | refl => exact hb.isOrderly
  | step _ x hx ih => exact step_orderly ih hb.spread hx
  | outside _ x hx ih => exact outside_orderly ih hb.spread hx

/-- **In every session that comes about the stores of a database are in step.** -/
theorem Reaches.isInStep {t : Session} (hr : Reaches D s t) (hb : Begins D s)
    (hs : t.store? name = some store) {c : Connection} (hc : store.connection? t.world = some c) :
    t.world.IsInStep c.handle :=
  have ho := hr.isOrderly hb
  ho.world.isInStep ((ho.isOn hs hc).owns ho.world)

/-! ## 4. An empty root -/

/-- An empty root, in which nothing is open. -/
def emptyRoot : Session := { world := World.written [] [] }

/-- A session at an empty root can use one database. -/
theorem emptyRoot_begins : Begins (· = (["x.db"] : Place)) emptyRoot := by
  refine ⟨?_, ⟨Disk.isTree_of_entries (by decide) (by decide), rfl⟩, rfl, rfl, rfl, ?_, ?_⟩
  · rintro p q rfl rfl
    decide
  · rintro p x rfl hx
    rcases hx with hx | hx
    · obtain rfl := Option.some.inj hx
      decide
    · obtain rfl := Option.some.inj hx
      decide
  · rintro p n i rfl hfile
    have hnone : emptyRoot.world.disk.entryAt ["x.db"] = none := by decide
    rw [hnone] at hfile
    exact absurd hfile (by simp)

theorem emptyRoot_opensInto :
    Store.OpensInto (· = (["x.db"] : Place)) emptyRoot.world "/x.db" :=
  Store.opensInto_of_place (by decide) (by decide)

end Session

end CompileJournal
