import CompileJournal.Proofs.Sessions.Journals

/-!
# Stores are finite maps

A session that no other program disturbs is told by maps alone: the machine of `Journals` gives
all its answers.  What ties the two together is that each database holds the map of its place, and
each private store a map of its own; every step keeps that.

* `Session.Matches`: the tie;
* `step_follows`: one step;
* `explained_of_begins`: a whole session.
-/

namespace CompileJournal

namespace Session

variable {D : Place → Prop} {s : Session} {J J' : Journals} {w w' : World} {name : Text}
  {store : Store} {h : Handle} {p : Place}

/-! ## 1. What ties a session to its maps -/

/-- The handle of the store of a name: none if the name is unknown, and none inside if the store is
closed. -/
def handle? (s : Session) (name : Text) : Option (Option Handle) :=
  (s.store? name).map fun store => (store.connection? s.world).map (·.handle)

/-- What a name stands for, told by the handle of its store. -/
inductive Stands (w : World) (files : Place → Option JournalMap) :
    Option (Option Handle) → Option Access → Prop
  | unknown : Stands w files none none
  | closed : Stands w files (some none) (some .closed)
  | file {h : Handle} {p : Place} (hp : h.place = some p) (hm : (files p).isSome) :
      Stands w files (some (some h)) (some (.file p))
  | alone {h : Handle} {rows : Table} {m : JournalMap} (hp : h.place = none)
      (hrows : w.table? h = some rows) (hm : rows.Shows m) :
      Stands w files (some (some h)) (some (.alone m))

/-- Each database holds the map of its place, and each private store a map of its own. -/
structure Matches (s : Session) (J : Journals) : Prop where
  file : ∀ p, Option.Rel Table.Shows (s.world.tableAt p) (J.files p)
  store : ∀ name, Stands s.world J.files (s.handle? name) (J.stores name)

/-- A name stands for the same after a change that does not concern it. -/
theorem Stands.elsewhere {files files' : Place → Option JournalMap} {x : Option (Option Handle)}
    {a : Option Access} (hs : Stands w files x a)
    (hrows : ∀ h, x = some (some h) → h.place = none → w'.table? h = w.table? h)
    (hfiles : ∀ p, (files p).isSome → (files' p).isSome) : Stands w' files' x a := by
  cases hs with
  | unknown => exact .unknown
  | closed => exact .closed
  | file hp hm => exact .file hp (hfiles _ hm)
  | alone hp hr hm => exact .alone hp ((hrows _ rfl hp).trans hr) hm

theorem handle?_eq (hs : s.store? name = some store) :
    s.handle? name = some ((store.connection? s.world).map (·.handle)) := by
  rw [handle?, hs, Option.map_some]

/-- An open store of a session, by its handle. -/
theorem isOn_of_handle? (ho : s.IsOrderly D) (hx : s.handle? name = some (some h)) :
    ∃ store, s.store? name = some store ∧ store.IsOn s.world h := by
  obtain ⟨store, hs, hmap⟩ := Option.map_eq_some_iff.mp hx
  obtain ⟨c, hc, rfl⟩ := Option.map_eq_some_iff.mp hmap
  exact ⟨store, hs, ho.isOn hs hc⟩

/-- No two names stand for one private database. -/
theorem name_of_handle? (ho : s.IsOrderly D) {name' : Text}
    (hx : s.handle? name = some (some h)) (hx' : s.handle? name' = some (some h))
    (hnone : h.place = none) : name = name' := by
  obtain ⟨store, hs, ⟨⟨c, hc, rfl⟩, -⟩⟩ := isOn_of_handle? ho hx
  obtain ⟨store', hs', ⟨⟨c', hc', hsame⟩, -⟩⟩ := isOn_of_handle? ho hx'
  exact ho.alone hs hs' hc hc' hnone hsame

/-! ## 2. Using a store -/

/-- An operation leaves every name with its handle. -/
theorem handle?_uses (hs : store.IsOn s.world h) (hu : store.Uses s.world h w') (name : Text) :
    (s.withWorld w').handle? name = s.handle? name := by
  have hstore : (s.withWorld w').store? name = s.store? name := rfl
  rw [handle?, handle?, hstore]
  exact congrFun (congrArg Option.map (funext fun t => hu.connection?_map hs t)) _

/-- Reading leaves every map. -/
theorem Matches.read (hm : Matches s J) (hs : store.IsOn s.world h)
    (hu : store.Uses s.world h w') (hdisk : w'.disk = s.world.disk) :
    Matches (s.withWorld w') J := by
  have htable : ∀ g, w'.table? g = s.world.table? g := fun g => by
    rw [World.table?, World.content, hdisk]
    rfl
  refine ⟨fun p => ?_, fun n => ?_⟩
  · have hat : w'.tableAt p = s.world.tableAt p := by
      simp only [World.tableAt, htable, hdisk]
    exact hat.symm ▸ hm.file p
  · rw [handle?_uses hs hu]
    exact (hm.store n).elsewhere (fun g _ _ => htable g) fun _ h => h

/-- Recording sets the entry of one map. -/
theorem Matches.put (ho : s.IsOrderly D) (hm : Matches s J)
    (hx : s.handle? name = some (some h)) (hs : store.IsOn s.world h)
    (hu : store.Uses s.world h w') (hw' : w'.IsOrderly D) {m : JournalMap} {r : Record}
    (hmap : J.map? name = some m) {rows : Table} (hrows : s.world.table? h = some rows)
    (hshows : rows.Shows m) (hafter : w'.table? h = some (rows.put (Row.ofRecord r))) :
    Matches (s.withWorld w') (J.setMap name (m.put r)) := by
  have hw := ho.world.sound
  have hown := hs.owns ho.world
  have hshows' := hshows.put r
  have hstore := hm.store name
  -- The rows behind every other handle are as they were.
  have hothers : ∀ {n g}, s.handle? n = some (some g) → g ≠ h →
      w'.table? g = s.world.table? g := by
    intro n g hg hne
    obtain ⟨t, -, ht⟩ := isOn_of_handle? ho hg
    exact hu.table?_eq hw hown (ht.owns ho.world) hne
  have hon' : w'.Owns D h := by
    obtain ⟨t, -, ht⟩ := isOn_of_handle? ho hx
    exact (hu.isOn ho.world hs ht).owns hw'
  rw [hx] at hstore
  generalize ha : J.stores name = a at hstore
  cases hstore with
  | @file _ p hp hsome =>
    have hset : J.setMap name (m.put r) = J.setFile p (m.put r) := by
      rw [Journals.setMap, ha]
    rw [hset]
    refine ⟨fun q => ?_, fun n => ?_⟩
    · by_cases hq : q = p
      · subst hq
        have hfile : (J.setFile q (m.put r)).files q = some (m.put r) := by
          simp [Journals.setFile]
        rw [hfile, show (s.withWorld w').world.tableAt q = _ from hon'.hosts.tableAt_eq hp, hafter]
        exact .some hshows'
      · have hfile : (J.setFile p (m.put r)).files q = J.files q := by
          simp [Journals.setFile, hq]
        have hat : w'.tableAt q = s.world.tableAt q := hu.tableAt_eq hw hown
          (by rw [hp]; exact fun heq => hq (Option.some.inj heq).symm)
        rw [hfile]
        exact hat.symm ▸ hm.file q
    · rw [handle?_uses hs hu]
      refine (hm.store n).elsewhere (fun g hg hnone => hothers hg ?_) fun q hq => ?_
      · rintro rfl
        rw [hp] at hnone
        exact absurd hnone (by simp)
      · by_cases hqp : q = p
        · simp [Journals.setFile, hqp]
        · simpa [Journals.setFile, hqp] using hq
  | alone hp hr hm' =>
    have hset : J.setMap name (m.put r) = J.setStore name (.alone (m.put r)) := by
      rw [Journals.setMap, ha]
    rw [hset]
    refine ⟨fun q => ?_, fun n => ?_⟩
    · have hat : w'.tableAt q = s.world.tableAt q := hu.tableAt_eq hw hown (by simp [hp])
      exact hat.symm ▸ hm.file q
    · rw [handle?_uses hs hu]
      by_cases hn : n = name
      · subst hn
        have hstores : (J.setStore n (.alone (m.put r))).stores n = some (.alone (m.put r)) := by
          simp [Journals.setStore]
        rw [hstores, hx]
        exact .alone hp hafter hshows'
      · have hstores : (J.setStore name (.alone (m.put r))).stores n = J.stores n := by
          simp [Journals.setStore, hn]
        rw [hstores]
        refine (hm.store n).elsewhere (fun g hg hnone => hothers hg ?_) fun _ h => h
        rintro rfl
        exact hn (name_of_handle? ho hg hx hnone)

/-- A name of a session is unknown, or it stands for a closed store, or for one that works on the
rows that its map is held in. -/
theorem store_cases (ho : s.IsOrderly D) (hm : Matches s J) (name : Text) :
    (s.store? name = none ∧ J.stores name = none) ∨
      (∃ store, s.store? name = some store ∧ store.connection? s.world = none ∧
        J.stores name = some .closed) ∨
      ∃ store h m rows, s.store? name = some store ∧ store.IsOn s.world h ∧
        s.handle? name = some (some h) ∧ J.map? name = some m ∧
        s.world.table? h = some rows ∧ rows.Shows m := by
  have hstore := hm.store name
  generalize hx : s.handle? name = x at hstore
  generalize ha : J.stores name = a at hstore
  cases hstore with
  | unknown => exact .inl ⟨Option.map_eq_none_iff.mp hx, rfl⟩
  | closed =>
    obtain ⟨store, hs, hc⟩ := Option.map_eq_some_iff.mp hx
    exact .inr (.inl ⟨store, hs, Option.map_eq_none_iff.mp hc, rfl⟩)
  | @file h p hp hsome =>
    obtain ⟨store, hs, hon⟩ := isOn_of_handle? ho hx
    obtain ⟨m, hfile⟩ := Option.isSome_iff_exists.mp hsome
    have hrel := hm.file p
    rw [(hon.owns ho.world).hosts.tableAt_eq hp, hfile] at hrel
    generalize hrows : s.world.table? h = rows at hrel
    cases hrel with
    | some hshows =>
      refine .inr (.inr ⟨store, h, m, _, hs, hon, rfl, ?_, hrows, hshows⟩)
      rw [Journals.map?, ha]
      exact hfile
  | @alone h rows m hp hrows hshows =>
    obtain ⟨store, hs, hon⟩ := isOn_of_handle? ho hx
    refine .inr (.inr ⟨store, h, m, rows, hs, hon, rfl, ?_, hrows, hshows⟩)
    rw [Journals.map?, ha]

theorem isLeftAlone_of_nil (hlocks : w.locks = []) (h : Handle) : w.IsLeftAlone h := by
  intro l hl
  rw [hlocks] at hl
  exact absurd hl (by simp)

/-! ## 3. Closing a store -/

/-- A closed store stands for nothing any more, and all others for what they stood for. -/
theorem handle?_closeStore (ho : s.IsOrderly D) (hs : s.store? name = some store) (n : Text) :
    (s.withWorld (store.close s.world)).handle? n =
      if n = name then some none else s.handle? n := by
  split
  · next hn =>
    subst hn
    rw [handle?_eq (s := s.withWorld (store.close s.world)) hs]
    rw [show Store.connection? (s.withWorld (store.close s.world)).world store = none from
      Store.connection?_close ho.world rfl]
    rfl
  · next hn =>
    cases ht : s.store? n with
    | none =>
      have ht' : (s.withWorld (store.close s.world)).store? n = none := ht
      rw [handle?, handle?, ht, ht']
      rfl
    | some t =>
      have hne : t.connection ≠ store.connection := fun hsame => hn (ho.names ht hs hsame)
      rw [handle?_eq ht, handle?_eq (s := s.withWorld (store.close s.world)) ht]
      rw [show Store.connection? (s.withWorld (store.close s.world)).world t = _ from
        Store.connection?_close_ne ho.world hne]

/-- Closing leaves every map. -/
theorem Matches.close (ho : s.IsOrderly D) (hm : Matches s J)
    (hs : s.store? name = some store) :
    Matches (s.withWorld (store.close s.world)) (J.setStore name .closed) := by
  have hdisk : (store.close s.world).disk = s.world.disk := by
    rw [Store.close_eq ho.world]
    split
    · rfl
    · rfl
  have htable : ∀ g, (store.close s.world).table? g = s.world.table? g := fun g => by
    rw [World.table?, World.content, hdisk]
    rfl
  refine ⟨fun p => ?_, fun n => ?_⟩
  · have hat : (store.close s.world).tableAt p = s.world.tableAt p := by
      simp only [World.tableAt, htable, hdisk]
    exact hat.symm ▸ hm.file p
  · rw [handle?_closeStore ho hs]
    split
    · next hn =>
      subst hn
      have hstores : (J.setStore n .closed).stores n = some .closed := by
        simp [Journals.setStore]
      rw [hstores]
      exact .closed
    · next hn =>
      have hstores : (J.setStore name .closed).stores n = J.stores n := by
        simp [Journals.setStore, hn]
      rw [hstores]
      exact (hm.store n).elsewhere (fun g _ _ => htable g) fun _ h => h

/-! ## 4. Opening a store -/

/-- Every name keeps its handle when more is connected. -/
theorem handle?_of_more (ho : s.IsOrderly D)
    (hmore : s.world.connections <+: w'.connections) (n : Text) :
    (s.withWorld w').handle? n = s.handle? n := by
  cases ht : s.store? n with
  | none =>
    have ht' : (s.withWorld w').store? n = none := ht
    rw [handle?, handle?, ht, ht']
    rfl
  | some t =>
    rw [handle?_eq ht, handle?_eq (s := s.withWorld w') ht]
    rw [show Store.connection? (s.withWorld w').world t = _ from
      connection?_of_more hmore (ho.known ht)]

/-- The store that was opened stands for its database. -/
theorem handle?_opened (ho : s.IsOrderly D) (hmore : s.world.connections <+: w'.connections)
    (hon : store.IsOn w' h) (n : Text) :
    ((s.withWorld w').setStore name store).handle? n =
      if n = name then some (some h) else s.handle? n := by
  have hworld : ((s.withWorld w').setStore name store).world = w' := rfl
  split
  · next hn =>
    subst hn
    obtain ⟨⟨c, hc, rfl⟩, -⟩ := hon
    have hs : ((s.withWorld w').setStore n store).store? n = some store := by
      rw [store?_setStore, if_pos rfl]
    rw [handle?_eq hs, hworld, hc]
    rfl
  · next hn =>
    rw [← handle?_of_more ho hmore n, handle?, handle?, store?_setStore, if_neg hn]
    rfl

/-- What an open store stands for is not touched when another one is opened. -/
theorem Matches.others (ho : s.IsOrderly D) (hm : Matches s J) {target : Option Place}
    (hopens : Store.Opens D s.world target w') {files : Place → Option JournalMap}
    (hfiles : ∀ p, (J.files p).isSome → (files p).isSome) (n : Text) :
    Stands w' files (s.handle? n) (J.stores n) := by
  refine (hm.store n).elsewhere (fun g hg hnone => ?_) hfiles
  obtain ⟨t, -, ht⟩ := isOn_of_handle? ho hg
  exact hopens.alone (ht.owns ho.world) hnone

/-- A failed attempt to open a store leaves every map. -/
theorem Matches.refused (ho : s.IsOrderly D) (hm : Matches s J) {target : Option Place}
    (hopens : Store.Opens D s.world target w') (hrows : ∀ p, w'.tableAt p = s.world.tableAt p) :
    Matches (s.withWorld w') J := by
  refine ⟨fun p => (hrows p).symm ▸ hm.file p, fun n => ?_⟩
  rw [handle?_of_more ho hopens.connections]
  exact hm.others ho hopens (fun _ h => h) n

/-- A store that is opened finds the map of its database, or starts it. -/
theorem Matches.opened (ho : s.IsOrderly D) (hm : Matches s J)
    (hopens : Store.Opens D s.world (some p) w')
    (hopened : Store.IsOpened s.world (some p) w' store h) (name : Text) :
    Matches ((s.withWorld w').setStore name store)
      ((J.setFile p ((J.files p).getD ∅)).setStore name (.file p)) := by
  have hfiles : ∀ q, ((J.setFile p ((J.files p).getD ∅)).setStore name (.file p)).files q =
      if q = p then some ((J.files p).getD ∅) else J.files q := by
    intro q
    by_cases hq : q = p
    · simp [Journals.setStore, Journals.setFile, hq]
    · simp [Journals.setStore, Journals.setFile, hq]
  have hstores : ∀ n, ((J.setFile p ((J.files p).getD ∅)).setStore name (.file p)).stores n =
      if n = name then some (.file p) else J.stores n := by
    intro n
    by_cases hn : n = name
    · simp [Journals.setStore, hn]
    · simp [Journals.setStore, Journals.setFile, hn]
  refine ⟨fun q => ?_, fun n => ?_⟩
  · rw [hfiles]
    split
    · next hq =>
      subst hq
      rw [show ((s.withWorld w').setStore name store).world.tableAt q = _ from
        hopened.rows hopened.place]
      have hrel := hm.file q
      generalize s.world.tableAt q = rows at hrel
      generalize J.files q = m at hrel
      cases hrel with
      | none => exact .some .nil
      | some hshows => exact .some hshows
    · next hq =>
      rcases hopens.tableAt q with hsame | ⟨htarget, -⟩
      · exact hsame.symm ▸ hm.file q
      · exact absurd (Option.some.inj htarget).symm hq
  · rw [handle?_opened ho hopens.connections hopened.isOn, hstores]
    split
    · exact .file hopened.place (by rw [hfiles, if_pos rfl]; rfl)
    · refine hm.others ho hopens (fun q hq => ?_) n
      rw [hfiles]
      split
      · rfl
      · exact hq

/-- A private store that is opened has an empty map. -/
theorem Matches.openedAlone (ho : s.IsOrderly D) (hm : Matches s J)
    (hopens : Store.Opens D s.world none w')
    (hopened : Store.IsOpened s.world none w' store h) (name : Text) :
    Matches ((s.withWorld w').setStore name store) (J.setStore name (.alone ∅)) := by
  refine ⟨fun q => ?_, fun n => ?_⟩
  · rcases hopens.tableAt q with hsame | ⟨htarget, -⟩
    · exact hsame.symm ▸ hm.file q
    · exact absurd htarget (by simp)
  · rw [handle?_opened ho hopens.connections hopened.isOn]
    split
    · next hn =>
      have hstores : (J.setStore name (.alone ∅)).stores n = some (.alone ∅) := by
        simp [Journals.setStore, hn]
      rw [hstores]
      exact .alone hopened.place (hopened.alone hopened.place).2 .nil
    · next hn =>
      have hstores : (J.setStore name (.alone ∅)).stores n = J.stores n := by
        simp [Journals.setStore, hn]
      rw [hstores]
      exact hm.others ho hopens (fun _ h => h) n

/-! ## 5. One step -/

/-- The machine answers a step, and fits the session afterwards. -/
structure Follows (s : Session) (J : Journals) (x : StoreStep) (r : Session × Reply) : Prop where
  locks : r.1.world.locks = s.world.locks
  moves : ∃ J', J.Moves (x.target s.world) x r.2 J' ∧ Matches r.1 J'

section steps

variable (ho : s.IsOrderly D) (hlocks : s.world.locks = []) (hm : Matches s J)
include ho hlocks hm

theorem put_follows (name : Text) (r : Record) :
    Follows s J (.put name r) (s.step (.put name r)) := by
  simp only [step, Session.put]
  rcases store_cases ho hm name with ⟨hs, ha⟩ | ⟨store, hs, hc, ha⟩ |
    ⟨store, h, m, rows, hs, hon, hx, hmap, hrows, hshows⟩
  · rw [onStore_none hs]
    exact ⟨rfl, J, .unknown (x := .put name r) (.inl rfl) ha, hm⟩
  · rw [onStore_eq hs, Store.put, Store.use_closed hc]
    exact ⟨rfl, J, .isClosed (x := .put name r) rfl ha, hm⟩
  · obtain ⟨hw', hu, hresult⟩ := Store.put_isOn ho.world hon r
    rw [onStore_eq hs]
    cases hr : (store.put s.world r).2 with
    | error e =>
      rw [hr] at hresult
      exact (hresult.1.absurd (isLeftAlone_of_nil hlocks h) World.IsLeftAlone.isReadable
        hrows).elim
    | ok u =>
      rw [hr] at hresult
      obtain ⟨-, rows', hrows', hafter⟩ := hresult
      obtain rfl := Option.some.inj (hrows.symm.trans hrows')
      exact ⟨hu.locks, _, .put hmap, hm.put ho hx hon hu hw' hmap hrows hshows hafter⟩

theorem get_follows (name file : Text) :
    Follows s J (.get name file) (s.step (.get name file)) := by
  simp only [step, Session.get]
  rcases store_cases ho hm name with ⟨hs, ha⟩ | ⟨store, hs, hc, ha⟩ |
    ⟨store, h, m, rows, hs, hon, -, hmap, hrows, hshows⟩
  · rw [onStore_none hs]
    exact ⟨rfl, J, .unknown (x := .get name file) (.inl rfl) ha, hm⟩
  · rw [onStore_eq hs, Store.get_eq, Store.use_closed hc]
    exact ⟨rfl, J, .isClosed (x := .get name file) rfl ha, hm⟩
  · obtain ⟨-, hu, hdisk, hresult⟩ := Store.readRows_isOn ho.world hon .get
    rw [onStore_eq hs, Store.get_eq]
    cases hr : (store.use s.world fun w c => w.readRows c .get).2 with
    | error e =>
      rw [hr] at hresult
      exact (hresult.absurd (isLeftAlone_of_nil hlocks h).isReadable id hrows).elim
    | ok rows' =>
      rw [hr] at hresult
      obtain rfl := Option.some.inj (hrows.symm.trans hresult.2)
      have hfound : (Except.ok rows : Except Failure Table).bind (Store.recordIn file) =
          .ok (m.get file) := hshows.recordIn file
      simp only [hfound]
      exact ⟨hu.locks, J, .got hmap, hm.read hon hu hdisk⟩

theorem records_follows (name : Text) :
    Follows s J (.records name) (s.step (.records name)) := by
  simp only [step, Session.records]
  rcases store_cases ho hm name with ⟨hs, ha⟩ | ⟨store, hs, hc, ha⟩ |
    ⟨store, h, m, rows, hs, hon, -, hmap, hrows, hshows⟩
  · rw [onStore_none hs]
    exact ⟨rfl, J, .unknown (x := .records name) (.inl rfl) ha, hm⟩
  · rw [onStore_eq hs, Store.records_eq, Store.use_closed hc]
    exact ⟨rfl, J, .isClosed (x := .records name) rfl ha, hm⟩
  · obtain ⟨-, hu, hdisk, hresult⟩ := Store.readRows_isOn ho.world hon .list
    rw [onStore_eq hs, Store.records_eq]
    cases hr : (store.use s.world fun w c => w.readRows c .list).2 with
    | error e =>
      rw [hr] at hresult
      exact (hresult.absurd (isLeftAlone_of_nil hlocks h).isReadable id hrows).elim
    | ok rows' =>
      rw [hr] at hresult
      obtain rfl := Option.some.inj (hrows.symm.trans hresult.2)
      obtain ⟨rs, hrs, hlists⟩ := hshows.records
      have hlisted : (Except.ok rows : Except Failure Table).bind
          (fun rows => rows.records.mapError .undecodable) = .ok rs := by
        simp only [Except.bind, hrs]
        rfl
      simp only [hlisted]
      exact ⟨hu.locks, J, .listed hmap hlists, hm.read hon hu hdisk⟩

omit hlocks in
theorem closeStore_follows (name : Text) :
    Follows s J (.closeStore name) (s.step (.closeStore name)) := by
  simp only [step, closeStore]
  cases hs : s.store? name with
  | none =>
    have ha : J.stores name = none := by
      rcases store_cases ho hm name with ⟨-, ha⟩ | ⟨store, hs', -⟩ | ⟨store, -, -, -, hs', -⟩
      · exact ha
      · rw [hs] at hs'
        exact absurd hs' (by simp)
      · rw [hs] at hs'
        exact absurd hs' (by simp)
    exact ⟨rfl, J, .unknown (x := .closeStore name) (.inr rfl) ha, hm⟩
  | some store =>
    have hknown : ∃ a, J.stores name = some a := by
      have hstore := hm.store name
      rw [handle?_eq hs] at hstore
      generalize J.stores name = a at hstore
      generalize Option.map _ _ = x at hstore
      cases hstore with
      | closed | file | alone => exact ⟨_, rfl⟩
    obtain ⟨a, ha⟩ := hknown
    refine ⟨?_, _, .closed ha, hm.close ho hs⟩
    show (store.close s.world).locks = s.world.locks
    rw [Store.close_eq ho.world]
    split
    · rfl
    · rfl

theorem openStore_follows (hspread : IsSpread D) {path : Text}
    (hin : Store.OpensInto D s.world path) (name : Text) (timeout : Binary64) :
    Follows s J (.openStore name path timeout) (s.step (.openStore name path timeout)) := by
  obtain ⟨hopens, hresult⟩ := Store.openAt_orderly ho.world hspread hin timeout
  simp only [step, openStore]
  cases hr : Store.openAt s.world path timeout with
  | mk w' r =>
  rw [hr] at hopens hresult
  cases r with
  | error e =>
    refine ⟨hopens.locks, J, .refused fun p hp => ?_, hm.refused ho hopens hresult⟩
    -- A database that has been started can be opened.
    cases hfile : J.files p with
    | none => exact .inl rfl
    | some m =>
      refine .inr (Classical.byContradiction fun hnul => ?_)
      have hrel := hm.file p
      rw [hfile] at hrel
      generalize hrows : s.world.tableAt p = rows at hrel
      cases hrel with
      | some hshows =>
        obtain ⟨n, hh, htable⟩ := World.hosts_of_tableAt ho.world.sound hrows
        have hopened := Store.openAt_of_table ho.world hin hp hnul hh rfl htable timeout
        have hfree : s.world.isClosedOff n = false := by
          rw [World.isClosedOff, hlocks]
          rfl
        rw [hr, hfree] at hopened
        exact absurd hopened (by simp)
  | ok store =>
    obtain ⟨rfl, hprivate, h, hopened⟩ := hresult
    refine ⟨hopens.locks, ?_⟩
    cases htarget : Store.place? s.world path with
    | none =>
      rw [htarget] at hopens hopened
      exact ⟨_, .openedAlone (hprivate htarget), hm.openedAlone ho hopens hopened name⟩
    | some p =>
      rw [htarget] at hopens hopened
      exact ⟨_, .opened htarget, hm.opened ho hopens hopened name⟩

/-- **The machine answers every step of a session.** -/
theorem step_follows (hspread : IsSpread D) {x : StoreStep} (hx : x.IsWithin D s) :
    Follows s J x (s.step x) := by
  cases x with
  | openStore name path timeout => exact openStore_follows ho hlocks hm hspread hx name timeout
  | closeStore name => exact closeStore_follows ho hm name
  | put name r => exact put_follows ho hlocks hm name r
  | get name file => exact get_follows ho hlocks hm name file
  | records name => exact records_follows ho hlocks hm name

end steps

/-! ## 6. A whole session -/

/-- Every step opens only databases of `D`, all the way. -/
def StaysWithin (D : Place → Prop) : Session → List StoreStep → Prop
  | _, [] => True
  | s, x :: xs => x.IsWithin D s ∧ StaysWithin D (s.step x).1 xs

/-- The databases that are there hold the rows of records, in order. -/
def HoldsRecords (s : Session) : Prop :=
  ∀ p rows, s.world.tableAt p = some rows →
    Table.IsSorted rows ∧ ∃ rs : List Record, rows = rs.map Row.ofRecord

/-- The maps of a session that has no stores yet: those of the databases that are there. -/
structure Starts (s : Session) (J : Journals) : Prop where
  stores : ∀ name, J.stores name = none
  files : ∀ p, Option.Rel Table.Shows (s.world.tableAt p) (J.files p)

theorem Begins.exists_starts (hrecords : s.HoldsRecords) : ∃ J, Starts s J := by
  have hmap : ∀ p, ∃ m, Option.Rel Table.Shows (s.world.tableAt p) m := by
    intro p
    cases hrows : s.world.tableAt p with
    | none => exact ⟨none, .none⟩
    | some rows =>
      obtain ⟨hsorted, rs, rfl⟩ := hrecords p rows hrows
      obtain ⟨m, hm⟩ := Table.Shows.of_records hsorted
      exact ⟨some m, .some hm⟩
  exact ⟨⟨fun p => (hmap p).choose, fun _ => none⟩, fun _ => rfl, fun p => (hmap p).choose_spec⟩

theorem Begins.matches (hb : Begins D s) (hJ : Starts s J) : Matches s J := by
  refine ⟨hJ.files, fun name => ?_⟩
  have hnone : s.handle? name = none := by simp [handle?, store?, hb.stores]
  rw [hnone, hJ.stores]
  exact .unknown

/-- The machine answers as long as it fits. -/
theorem explained_of_matches (ho : s.IsOrderly D) (hspread : IsSpread D)
    (hlocks : s.world.locks = []) (hm : Matches s J) {steps : List StoreStep}
    (hwithin : s.StaysWithin D steps) : s.Explained J steps := by
  induction steps generalizing s J with
  | nil => exact .done
  | cons x xs ih =>
    obtain ⟨hx, hxs⟩ := hwithin
    obtain ⟨hsame, J', hmoves, hm'⟩ := step_follows ho hlocks hm hspread hx
    exact .step hmoves (ih (step_orderly ho hspread hx) (hsame.trans hlocks) hm' hxs)

/-- **A session is told by finite maps**, one for each database and one for each private store, as
long as no database and no new directory gets where another database has its undo file or its
log. -/
theorem explained_of_begins (hb : Begins D s) (hrecords : s.HoldsRecords)
    {steps : List StoreStep} (hwithin : s.StaysWithin D steps) :
    ∃ J, Starts s J ∧ s.Explained J steps := by
  obtain ⟨J, hJ⟩ := Begins.exists_starts hrecords
  exact ⟨J, hJ, explained_of_matches hb.isOrderly hb.spread hb.locks (hb.matches hJ) hwithin⟩

/-- A record that is put, read, and read again through another store after the first was closed. -/
def sharedSteps : List StoreStep :=
  let r : Record := ⟨"/a b.c", "cc", ["-D", "X=\x27 \x22"], "/"⟩
  [.openStore "s" "/x.db" (.finite false 5 0), .put "s" r, .get "s" "/a b.c", .closeStore "s",
    .records "s"]

theorem explained_of_begins_emptyRoot :
    Begins (· = (["x.db"] : Place)) emptyRoot ∧ emptyRoot.HoldsRecords ∧
      emptyRoot.StaysWithin (· = (["x.db"] : Place)) sharedSteps ∧
      ∃ J, Starts emptyRoot J ∧ emptyRoot.Explained J sharedSteps := by
  have hbegins := emptyRoot_begins
  have hrecords : emptyRoot.HoldsRecords := by
    intro p rows hrows
    obtain ⟨n, hh, -⟩ := World.hosts_of_tableAt hbegins.sound hrows
    have hdirectory : Entry.file n = .directory :=
      Disk.forall_entryAt (P := fun _ e => e = .directory) rfl
        (fun _ he => absurd he (List.not_mem_nil)) (hh.place rfl)
    exact absurd hdirectory (by simp)
  have hwithin : emptyRoot.StaysWithin (· = (["x.db"] : Place)) sharedSteps := by
    simp only [sharedSteps, StaysWithin, StoreStep.IsWithin, and_true]
    exact emptyRoot_opensInto
  exact ⟨hbegins, hrecords, hwithin, explained_of_begins hbegins hrecords hwithin⟩

/-- A store whose directory is made where another database has its undo file. -/
def nestedSteps : List StoreStep :=
  [.openStore "x" "/x.db" (.finite false 5 0),
    .openStore "y" "/x.db-journal/y.db" (.finite false 5 0),
    .put "x" ⟨"/a.c", "cc", [], "/"⟩]

/-- **A session need not be told by maps**: here the record is refused. -/
theorem not_explained_nestedSteps :
    ¬∃ J, Starts emptyRoot J ∧ emptyRoot.Explained J nestedSteps := by
  rintro ⟨J, -, h⟩
  obtain ⟨J₁, -, h⟩ := h.inv
  obtain ⟨J₂, -, h⟩ := h.inv
  obtain ⟨J₃, hmoves, -⟩ := h.inv
  have hreply : (((emptyRoot.step (.openStore "x" "/x.db" (.finite false 5 0))).1.step
      (.openStore "y" "/x.db-journal/y.db" (.finite false 5 0))).1.put "x"
        ⟨"/a.c", "cc", [], "/"⟩).2 = .error (.failure (.database .unwritable)) := by
    decide +kernel
  simp only [step] at hmoves hreply
  rw [hreply] at hmoves
  cases hmoves

end Session

end CompileJournal
