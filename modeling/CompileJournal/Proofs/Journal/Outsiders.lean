import CompileJournal.Journal.Outside
import CompileJournal.Proofs.Journal.Opening
import Mathlib.Data.List.Pairwise

/-!
# Other programs in an orderly world

Another program that visits a database is a connection that comes and goes, so all it leaves is
what one statement leaves.  One that holds a transaction leaves the lock, and with a database that
it is going to start the undo file as well; both go when the transaction ends.  So the world stays
orderly, and whatever was a database stays one.

* `Hosts.spread`, `IsOrderly.withUndo`: what comes and goes at the place of an undo file;
* `World.Admits`: what another program leaves;
* `visitRows_orderly`, `visitPut_orderly`, `visitDrop_orderly`, `lock_orderly`, `unlock_orderly`.
-/

namespace CompileJournal

namespace World

variable {D : Place → Prop} {w w' v : World} {g h : Handle} {c : Connection} {p u : Place}
  {path : Text} {i : Image} {α : Type}

/-! ## 1. The place of an undo file -/

theorem liesAside_of_undo (hp : h.place = some p) (hu : h.undo = some u) : LiesAside u p :=
  .inl ((Handle.beside_eq hp _).symm.trans hu)

/-- No database lies where another one has its undo file. -/
theorem Owns.undo_ne (hspread : IsSpread D) (hown : w.Owns D h) (hg : w.Owns D g)
    (hu : h.undo = some u) : g.place ≠ some u := by
  intro hplace
  obtain ⟨name, outer, hp, -⟩ := Handle.beside_eq_some hu
  exact hspread (hg.place hplace) (hown.place hp) (liesAside_of_undo hp hu)

/-- No file of a database lies where another one has its undo file. -/
theorem Owns.undo_not_file (hw : w.IsSound) (hspread : IsSpread D) (hown : w.Owns D h)
    (hg : w.Owns D g) (hu : h.undo = some u) : w.disk.entryAt u ≠ some (.file g.file) := by
  intro hfile
  cases hplace : g.place with
  | none => exact hg.alone hplace u hfile
  | some q =>
    rw [hw.tree.unique (hg.hosts.place hplace) hfile] at hplace
    exact hown.undo_ne hspread hg hu hplace

section undo

variable (hw : w.IsSound) (hspread : IsSpread D) (hown : w.Owns D h)
  (hb : w.ChangesOnly (fun x => h.undo = some x) (fun _ => False) v)
include hw hspread hown hb

theorem Owns.content_undo (hg : w.Owns D g) : v.content g = w.content g :=
  hb.disk.content hg.hosts.number id fun _ hx => hown.undo_not_file hw hspread hg hx

theorem Owns.after_undo (hg : w.Owns D g) : v.Owns D g where
  hosts := hg.hosts.elsewhere hb.disk fun hp hu => hown.undo_ne hspread hg hu hp
  place := hg.place
  alone hnone x hx := by
    rcases hb.disk.file hx with hx | hle
    · exact hg.alone hnone x hx
    · exact absurd hg.hosts.number (Nat.not_lt.mpr hle)
  short := hg.short
  made i hi := hg.made i ((hown.content_undo hw hspread hb hg).symm.trans hi)

end undo

/-- The undo file and the log of a database, or of two, have different places. -/
theorem undo_ne_log {q x : Place} (hu : Handle.undo ⟨0, some p⟩ = some x) :
    Handle.log ⟨0, some q⟩ ≠ some x := by
  intro hl
  obtain ⟨name, outer, -, rfl⟩ := Handle.beside_eq_some hu
  obtain ⟨name', outer', -, heq⟩ := Handle.beside_eq_some hl
  -- The names differ in the last letter but two.
  have hthird := congrArg (fun t => t.reverse[2]?) (List.cons.inj heq).1
  simp at hthird

/-- **A world stays orderly when the undo file of a database and the lock for which it is there
come or go.** -/
theorem IsOrderly.withUndo (ho : w.IsOrderly D) (hspread : IsSpread D) (hown : w.Owns D h)
    (hb : w.ChangesOnly (fun x => h.undo = some x) (fun _ => False) v) {ls : List Lock}
    (hthere : ∀ {u e}, h.undo = some u → v.disk.entryAt u = some e →
      (∃ n, e = .file n) ∧ ∃ l ∈ ls, l.handle.place = h.place ∧ l.hasUndo = true)
    (hkept : ∀ {l}, l ∈ w.locks → l.hasUndo = true → l.handle.place ≠ h.place →
      ∃ l' ∈ ls, l'.handle.place = l.handle.place ∧ l'.hasUndo = true)
    (hlock : ∀ {l}, l ∈ ls → w.Owns D l.handle ∧ l.isLogging = false ∧
      (l.hasUndo = true → l.mode.writes = true ∧ (w.content l.handle).isBlank = true))
    (hholder : ls.Pairwise fun l l' => ∀ path, l.holder = some path → l'.holder ≠ some path) :
    IsOrderly D { v with locks := ls } := by
  have hw := ho.sound
  have hv := hb.sound hw
  refine {
    sound := ⟨hv.tree, hv.cwd⟩
    undo := fun {p u e} hD hu he => ?_
    log := fun {p x} hD hl => ?_
    made := fun {p n i} hD hfile hi => ?_
    connection := fun {c} hc => ?_
    lock := fun {l} hl => ?_
    holder := hholder }
  · by_cases hp : h.place = some p
    · rw [← hp]
      exact hthere ((Handle.beside_eq hp _).trans hu) he
    · have hne : h.undo ≠ some u := by
        -- Two databases with one place for their undo files are the same.
        intro hu'
        obtain ⟨name, outer, hplace, rfl⟩ := Handle.beside_eq_some hu'
        obtain ⟨name', outer', hplace', heq⟩ := Handle.beside_eq_some hu
        obtain ⟨hname, rfl⟩ := List.cons.inj heq
        rw [List.append_cancel_right hname] at hplace
        exact hp (hplace.trans hplace'.symm)
      have he' : w.disk.entryAt u = some e := (hb.disk.elsewhere hne).symm.trans he
      obtain ⟨hfile, l, hl, hlplace, hhas⟩ := ho.undo hD hu he'
      obtain ⟨l', hl', hlplace', hhas'⟩ := hkept hl hhas (hlplace ▸ Ne.symm hp)
      exact ⟨hfile, l', hl', hlplace'.trans hlplace, hhas'⟩
  · refine (hb.disk.elsewhere fun hu => ?_).trans (ho.log hD hl)
    obtain ⟨name, outer, hplace, -⟩ := Handle.beside_eq_some hu
    exact undo_ne_log ((Handle.beside_eq hplace _).symm.trans hu) hl
  · have hfile' : w.disk.entryAt p = some (.file n) := by
      refine (hb.disk.elsewhere fun hu => ?_).symm.trans hfile
      obtain ⟨name, outer, hplace, -⟩ := Handle.beside_eq_some hu
      exact hspread hD (hown.place hplace) (liesAside_of_undo hplace hu)
    refine ho.made hD hfile' ((hb.disk.content (hw.tree.number hfile') id ?_).symm.trans hi)
    intro x hu hx
    obtain ⟨name, outer, hplace, -⟩ := Handle.beside_eq_some hu
    rw [hw.tree.unique hx hfile'] at hu
    exact hspread hD (hown.place hplace) (liesAside_of_undo hplace hu)
  · have hc' : some c ∈ w.connections := hb.connections ▸ hc
    obtain ⟨hg, hagrees⟩ := ho.connection hc'
    refine ⟨(hown.after_undo hw hspread hb hg).of_disk rfl, ?_⟩
    rw [← hown.content_undo hw hspread hb hg] at hagrees
    exact hagrees
  · obtain ⟨hg, hlogging, hlocked⟩ := hlock hl
    refine ⟨(hown.after_undo hw hspread hb hg).of_disk rfl, hlogging, ?_⟩
    rw [← hown.content_undo hw hspread hb hg] at hlocked
    exact hlocked

/-! ## 2. Visits -/

/-- What another program leaves: an orderly world with the same connections, in which each database
is still one. -/
structure Admits (D : Place → Prop) (w w' : World) : Prop where
  orderly : w'.IsOrderly D
  connections : w'.connections = w.connections
  image : ∀ {g}, w.Owns D g → (∃ i, w.content g = .database i) → ∃ i, w'.content g = .database i

theorem Admits.refl (ho : w.IsOrderly D) : Admits D w w := ⟨ho, rfl, fun _ => id⟩

theorem Joins.image (hj : Joins D w v c) (hg : w.Owns D g)
    (hi : ∃ i, w.content g = .database i) : ∃ i, v.content g = .database i := by
  obtain ⟨i, hi⟩ := hi
  exact ⟨i, (hj.content_eq hg).trans hi⟩

theorem releaseLog_of_agrees {t : Content} (h : c.memory.Agrees t) : w.releaseLog c = w := by
  simp [releaseLog, h.isLogging]

/-- A visit leaves what its one statement leaves. -/
theorem visit_orderly (ho : w.IsOrderly D) (hspread : IsSpread D) (hin : LeadsInto D w path)
    {use : World → Connection → Turn α}
    (huse : ∀ {v c}, Shares v c → v.Owns D c.handle → c.memory = {} →
      ∃ P, Attempts v c P (use v c) ∧ ∀ j, P j → IsMade c.handle j) :
    Admits D w (w.visit path use).1 := by
  unfold visit
  cases hconnect : w.connect path with
  | error e => exact .refl ho
  | ok r =>
  obtain ⟨v, c⟩ := r
  have hj := ho.connect hspread hin hconnect
  have hagrees : c.memory.Agrees (v.content c.handle) := hj.memory ▸ Memory.agrees_empty _
  obtain ⟨P, ht, hP⟩ := huse (hj.orderly.shares_of_owns hj.owns hagrees) hj.owns hj.memory
  simp only [releaseLog_of_agrees ht.agrees]
  refine ⟨hj.orderly.revise hj.owns ht.revises hP,
    ht.revises.bound.connections.trans hj.grows.connections, fun {g} hg hi => ?_⟩
  rcases ht.revises.content_cases hj.orderly.sound hj.owns (hj.owns_of_owns hg) with
    hsame | ⟨-, -, j, -, -, hcontent⟩
  · rw [hsame]
    exact hj.image hg hi
  · exact ⟨j, hcontent⟩

/-- A file without the table cannot be read by a visitor. -/
theorem readRows_fresh (h : Shares w c) (hfresh : c.memory = {}) (q : Query) :
    Rests w c (w.readRows c q) := by
  cases htable : w.table? c.handle with
  | some rows =>
    obtain ⟨i, hi, -⟩ := content_of_table htable
    exact (readRows_image h hi q).1
  | none =>
    obtain ⟨hrests, hfails⟩ := understand_fresh h hfresh htable q
    unfold readRows
    split
    · next heq =>
      rw [heq] at hrests
      exact hrests.ends _
    · next heq =>
      rw [heq] at hfails
      exact absurd rfl hfails

/-- A file without the table cannot be changed by a visitor. -/
theorem putRow_fresh (h : Shares w c) (hown : w.Owns D c.handle) (hfresh : c.memory = {})
    (r : Row) : ∃ P, Attempts w c P (w.putRow c r) ∧ ∀ j, P j → IsMade c.handle j := by
  cases htable : w.table? c.handle with
  | some rows =>
    obtain ⟨i, hi, -⟩ := content_of_table htable
    have hmade := hown.made i hi
    exact ⟨_, (putRow_image h hi hmade.room r).1, fun j hj => hj.isMade hmade⟩
  | none =>
    obtain ⟨hrests, hfails⟩ := understand_fresh h hfresh htable .put
    refine ⟨fun _ => False, ?_, fun _ h => h.elim⟩
    unfold putRow
    split
    · next heq =>
      rw [heq] at hrests
      exact hrests.attempts h _ _
    · next heq =>
      rw [heq] at hfails
      exact absurd rfl hfails

section visits

variable (ho : w.IsOrderly D) (hspread : IsSpread D) (hin : LeadsInto D w path)
include ho hspread hin

theorem visitRows_orderly : Admits D w (w.visitRows path).1 := by
  unfold visitRows
  split
  · exact visit_orderly ho hspread hin fun {v c} h _ hfresh =>
      ⟨fun _ => False, (readRows_fresh h hfresh .list).attempts h _ _, fun _ h => h.elim⟩
  · exact .refl ho

theorem visitPut_orderly (r : Row) : Admits D w (w.visitPut path r).1 :=
  visit_orderly ho hspread hin fun h hown hfresh => putRow_fresh h hown hfresh r

theorem visitDrop_orderly : Admits D w (w.visitDrop path).1 :=
  visit_orderly ho hspread hin fun {v c} h hown _ =>
    ⟨_, dropTable_shares h (IsOrderly.room hown), fun j hj =>
      hj.isMade (fun rows hrows => absurd hrows (by simp)) hown.short⟩

end visits

/-! ## 3. Beginning a transaction that is held -/

/-- How a transaction from outside begins: it only reads, or it is going to start a blank database
and opens the undo file. -/
structure Begins (w : World) (c : Connection) (writes : Bool) (t : Turn (Option Image)) :
    Prop where
  handle : t.connection.handle = c.handle
  agrees : t.connection.memory.Agrees (w.content c.handle)
  failed : ∀ f, t.result = .error f → t.world = w
  reads : ∀ seen, t.result = .ok seen → (writes && seen.isNone) = false → t.world = w
  starts : ∀ seen, t.result = .ok seen → (writes && seen.isNone) = true →
    (w.content c.handle).isBlank = true ∧ w.isClaimed c.handle.file = false ∧
      w.openUndo c.handle = (t.world, .ok ())

/-- A beginning that leaves the world as it is. -/
theorem Rests.begins {writes : Bool} {t : Turn (Option Image)} (h : Rests w c t)
    (hreads : ∀ seen, t.result = .ok seen → (writes && seen.isNone) = false) :
    Begins w c writes t where
  handle := h.handle
  agrees := h.agrees
  failed _ _ := h.world
  reads _ _ _ := h.world
  starts seen hok hstarts := by
    rw [hreads seen hok] at hstarts
    exact absurd hstarts (by simp)

theorem beginRead_rests (h : Shares w c) : Rests w c (w.beginRead c) := by
  rw [beginRead_eq h]
  split
  · exact h.still _
  · exact remember_rests h.agrees.see.1 _

theorem beginWrite_begins (h : Shares w c) (closesOff : Bool) :
    Begins w c true (w.beginWrite c closesOff) := by
  have hsee : ∀ r, Rests w c
      (⟨w, c.remember (c.memory.see (w.content c.handle)), r⟩ : Turn (Option Image)) :=
    remember_rests h.agrees.see.1
  have hlogging : (c.memory.see (w.content c.handle)).isLogging = false :=
    h.agrees.see.1.isLogging
  have hhandle : (c.remember (c.memory.see (w.content c.handle))).handle = c.handle := rfl
  have hmemory : (c.remember (c.memory.see (w.content c.handle))).memory =
    c.memory.see (w.content c.handle) := rfl
  unfold beginWrite
  rw [beginRead_eq h]
  cases hclosed : w.isClosedOff c.handle.file with
  | true => exact (h.still _).begins fun _ hok => absurd hok (by simp)
  | false =>
  simp only [Bool.false_eq_true, if_false]
  cases hseen : (w.content c.handle).seen with
  | error f => exact (hsee _).begins fun _ hok => absurd hok (by simp)
  | ok seen =>
  simp only [hmemory, hlogging, hhandle, Bool.false_eq_true, if_false]
  split
  · exact (hsee _).begins fun _ hok => absurd hok (by simp)
  next hfree =>
  rw [Bool.or_eq_true, not_or, Bool.not_eq_true] at hfree
  cases seen with
  | some i =>
    refine (hsee _).begins fun seen hok => ?_
    obtain rfl : some i = seen := Except.ok.inj hok
    rfl
  | none =>
    have hblank : (w.content c.handle).isBlank = true := by
      cases hcontent : w.content c.handle with
      | database i =>
        rw [hcontent] at hseen
        exact absurd hseen (by simp [Content.seen, Content.isBlank])
      | text t =>
        rw [hcontent] at hseen
        by_contra hsolid
        simp [Content.seen, hsolid] at hseen
    rcases openUndo_blank h.sound h.hosts h.tidy hfree.1 hblank with ⟨w', hundo, -⟩ | ⟨hundo, -⟩
    · simp only [hundo, Option.isSome_none, Bool.false_eq_true, if_false]
      refine ⟨rfl, h.agrees.see.1, fun f hf => absurd hf (by simp), fun seen hok hreads => ?_,
        fun _ _ _ => ⟨hblank, hfree.1, hundo⟩⟩
      obtain rfl : none = seen := Except.ok.inj hok
      exact absurd hreads (by simp)
    · simp only [hundo, Option.isSome_none, Bool.false_eq_true, if_false]
      exact (hsee _).begins fun _ hok => absurd hok (by simp)

theorem beginLock_begins (h : Shares w c) (mode : LockMode) :
    Begins w c mode.writes (w.beginLock c mode) := by
  cases mode with
  | deferred => exact (h.still _).begins fun _ _ => rfl
  | shared => exact (beginRead_rests h).begins fun _ _ => rfl
  | immediate => exact beginWrite_begins h false
  | exclusive => exact beginWrite_begins h true

/-- At most the undo file comes when a transaction begins. -/
theorem Begins.bounded {writes : Bool} {t : Turn (Option Image)} (hb : Begins w c writes t)
    (hw : w.IsSound) (hh : w.Hosts c.handle) :
    w.ChangesOnly (fun x => c.handle.undo = some x) (fun _ => False) t.world := by
  cases hresult : t.result with
  | error f =>
    rw [hb.failed f hresult]
    exact .refl hw
  | ok seen =>
    cases hstarts : writes && seen.isNone with
    | false =>
      rw [hb.reads seen hresult hstarts]
      exact .refl hw
    | true =>
      have hopened : w.ChangesOnly (fun x => c.handle.undo = some x) (fun _ => False)
          (w.openUndo c.handle).1 := openUndo_bounded hw hh fun _ h => h
      rw [(hb.starts seen hresult hstarts).2.2] at hopened
      exact hopened

/-! ## 4. Holding and ending a transaction -/

/-- The locks are the same, but that none can be ended under the path. -/
theorem mem_withoutHolder {ls : List Lock} {l' : Lock} (h : l' ∈ withoutHolder path ls) :
    ∃ l ∈ ls, l'.handle = l.handle ∧ l'.mode = l.mode ∧ l'.hasUndo = l.hasUndo ∧
      l'.isLogging = l.isLogging ∧ l'.holder ≠ some path ∧
      ∀ q, l'.holder = some q → l.holder = some q := by
  obtain ⟨l, hl, rfl⟩ := List.mem_map.mp h
  refine ⟨l, hl, ?_⟩
  split
  · simp
  · next hne => exact ⟨rfl, rfl, rfl, rfl, hne, fun _ => id⟩

theorem exists_withoutHolder {ls : List Lock} {l : Lock} (hl : l ∈ ls) (path : Text) :
    ∃ l' ∈ withoutHolder path ls, l'.handle = l.handle ∧ l'.hasUndo = l.hasUndo := by
  refine ⟨_, List.mem_map_of_mem hl, ?_⟩
  split
  · exact ⟨rfl, rfl⟩
  · exact ⟨rfl, rfl⟩

theorem pairwise_withoutHolder {ls : List Lock}
    (h : ls.Pairwise fun l l' => ∀ path, l.holder = some path → l'.holder ≠ some path) :
    (withoutHolder path ls).Pairwise
      fun l l' => ∀ path, l.holder = some path → l'.holder ≠ some path := by
  refine List.Pairwise.map _ (fun l l' hne q => ?_) h
  have hkept : ∀ l : Lock, (if l.holder = some path then { l with holder := none } else l).holder =
      some q → l.holder = some q := by
    intro l hl
    split at hl
    · exact absurd hl (by simp)
    · exact hl
  intro hl hl'
  exact hne q (hkept l hl) (hkept l' hl')

/-- **A lock leaves a world orderly.** -/
theorem lock_orderly (ho : w.IsOrderly D) (hspread : IsSpread D) (hin : LeadsInto D w path)
    (mode : LockMode) : Admits D w (w.lock path mode).1 := by
  unfold lock
  cases hconnect : w.connect path with
  | error e => exact .refl ho
  | ok r =>
  obtain ⟨v, c⟩ := r
  have hj := ho.connect hspread hin hconnect
  have hv := hj.orderly.sound
  have hagrees : c.memory.Agrees (v.content c.handle) := hj.memory ▸ Memory.agrees_empty _
  have hshares := hj.orderly.shares_of_owns hj.owns hagrees
  have hb := beginLock_begins hshares mode
  simp only
  cases hturn : v.beginLock c mode with
  | mk v' c' result =>
  rw [hturn] at hb
  have hhandle : c'.handle = c.handle := hb.handle
  cases result with
  | error f =>
    obtain rfl : v' = v := hb.failed f rfl
    simp only [releaseLog_of_agrees hb.agrees]
    exact ⟨hj.orderly, hj.grows.connections, hj.image⟩
  | ok seen =>
  have hbound : v.ChangesOnly (fun x => c.handle.undo = some x) (fun _ => False) v' :=
    hb.bounded hv hj.owns.hosts
  have hlogging : c'.memory.isLogging = false := hb.agrees.isLogging
  simp only [hlogging, Bool.not_false, Bool.and_true, hbound.locks, hhandle]
  refine ⟨hj.orderly.withUndo hspread hj.owns hbound (fun {u e} hu he => ?_)
    (fun {l} hl hhas _ => ?_) (fun {l} hl => ?_) ?_, hbound.connections.trans hj.grows.connections,
    fun {g} hg hi => ?_⟩
  · cases hstarts : mode.writes && seen.isNone with
    | false =>
      obtain rfl : v' = v := hb.reads seen rfl hstarts
      obtain ⟨name, outer, hplace, -⟩ := Handle.beside_eq_some hu
      obtain ⟨hfile, l, hl, hlplace, hhas⟩ := hj.orderly.undo (hj.owns.place hplace)
        ((Handle.beside_eq hplace _).symm.trans hu) he
      obtain ⟨l', hl', hhandle', hhas'⟩ := exists_withoutHolder hl path
      exact ⟨hfile, l', List.mem_cons_of_mem _ hl', by rw [hhandle', hlplace, hplace],
        hhas'.trans hhas⟩
    | true =>
      obtain ⟨-, hfree, hopen⟩ := hb.starts seen rfl hstarts
      obtain ⟨rfl, -⟩ := openUndo_leaf hv hj.owns.hosts hu hopen
      refine ⟨?_, _, List.mem_cons_self, rfl, rfl⟩
      rcases entryAt_putFile hv hj.owns.hosts (.inl hu) .undo u with hsame | ⟨-, -, hfile⟩
      · rw [hsame, hshares.tidy.undo_of_free hfree hu] at he
        exact absurd he (by simp)
      · exact ⟨_, Option.some.inj (he.symm.trans hfile)⟩
  · obtain ⟨l', hl', hhandle', hhas'⟩ := exists_withoutHolder hl path
    exact ⟨l', List.mem_cons_of_mem _ hl', congrArg Handle.place hhandle', hhas'.trans hhas⟩
  · rcases List.mem_cons.mp hl with rfl | hl
    · refine ⟨hj.owns, rfl, fun hhas => ?_⟩
      exact ⟨(Bool.and_eq_true_iff.mp hhas).1, (hb.starts seen rfl hhas).1⟩
    · obtain ⟨l₀, hl₀, hhandle', hmode, hhas', hlogging', -⟩ := mem_withoutHolder hl
      rw [hhandle', hmode, hhas', hlogging']
      exact hj.orderly.lock hl₀
  · refine List.pairwise_cons.mpr ⟨fun l' hl' q hq hq' => ?_,
      pairwise_withoutHolder hj.orderly.holder⟩
    obtain ⟨-, -, -, -, -, -, hne, -⟩ := mem_withoutHolder hl'
    obtain rfl : path = q := Option.some.inj hq
    exact hne hq'
  · have hcontent := hj.owns.content_undo hv hspread hbound (hj.owns_of_owns hg)
    obtain ⟨i, hi⟩ := hj.image hg hi
    exact ⟨i, hcontent.trans hi⟩

/-- Ending a transaction takes its lock away, and the undo file that it has made. -/
theorem unlock_eq (ho : w.IsOrderly D) (path : Text) :
    ((∀ l ∈ w.locks, l.holder ≠ some path) ∧ w.unlock path = w) ∨
      ∃ l ∈ w.locks, l.holder = some path ∧
        w.unlock path = { (if l.hasUndo then w.dropUndo l.handle else w) with
          locks := w.locks.filter (·.holder ≠ some path) } := by
  unfold unlock
  cases hfind : w.locks.find? (·.holder = some path) with
  | none => exact .inl ⟨fun l hl => by simpa using List.find?_eq_none.mp hfind l hl, rfl⟩
  | some l =>
    have hl : l ∈ w.locks := List.mem_of_find?_eq_some hfind
    have hholder : l.holder = some path := by simpa using List.find?_some hfind
    have hlogging := (ho.lock hl).2.1
    refine .inr ⟨l, hl, hholder, ?_⟩
    simp only [hlogging, releaseLog, Bool.false_and, Bool.false_eq_true, if_false]
    cases l.hasUndo with
    | false => rfl
    | true =>
      simp only [if_true]
      unfold dropUndo
      split
      · rfl
      · next u hu =>
        obtain ⟨name, outer, rfl, -, houter⟩ :=
          (ho.lock hl).1.hosts.isBeside ho.sound (.inl hu)
        have hw' : World.IsSound { w with locks := w.locks.filter (·.holder ≠ some path) } :=
          ⟨ho.sound.tree, ho.sound.cwd⟩
        rw [unlink_eq hw' houter, unlink_eq ho.sound houter]
        split
        · rfl
        · rfl

theorem endLock_bounded (ho : w.IsOrderly D) {l : Lock} (hl : l ∈ w.locks) :
    w.ChangesOnly (fun x => l.handle.undo = some x) (fun _ => False)
      (if l.hasUndo then w.dropUndo l.handle else w) := by
  split
  · exact dropUndo_bounded ho.sound (ho.lock hl).1.hosts fun _ h => h
  · exact .refl ho.sound

/-- **Ending a transaction leaves a world orderly.** -/
theorem unlock_orderly (ho : w.IsOrderly D) (hspread : IsSpread D) (path : Text) :
    Admits D w (w.unlock path) := by
  rcases unlock_eq ho path with ⟨-, heq⟩ | ⟨l, hl, hholder, heq⟩
  · rw [heq]
    exact .refl ho
  have hw := ho.sound
  obtain ⟨hown, -, -⟩ := ho.lock hl
  rw [heq]
  -- No other transaction can be ended under the path.
  have hsame : ∀ {l'}, l' ∈ w.locks → l'.holder = some path → l' = l := by
    intro l' hl' hholder'
    by_contra hne
    have : Std.Symm fun l l' : Lock => ∀ path, l.holder = some path → l'.holder ≠ some path :=
      ⟨fun l l' h path hl' hl => h path hl hl'⟩
    exact ho.holder.forall hl' hl hne path hholder' hholder
  have hothers : ∀ {l'}, l' ∈ w.locks → l' ≠ l →
      l' ∈ w.locks.filter (·.holder ≠ some path) := by
    intro l' hl' hne
    refine List.mem_filter.mpr ⟨hl', ?_⟩
    simpa using fun hholder' => hne (hsame hl' hholder')
  have hbound := endLock_bounded ho hl
  refine ⟨ho.withUndo hspread hown hbound (fun {u e} hu he => ?_) (fun {l'} hl' hhas hne => ?_)
    (fun {l'} hl' => ho.lock (List.mem_filter.mp hl').1) (ho.holder.filter _),
    hbound.connections, fun {g} hg hi => ?_⟩
  · obtain ⟨name, outer, hplace, -⟩ := Handle.beside_eq_some hu
    have hundo : Handle.undo ⟨0, some (name :: outer)⟩ = some u :=
      (Handle.beside_eq hplace _).symm.trans hu
    have hthere : ∀ {e}, w.disk.entryAt u = some e → (∃ n, e = .file n) ∧
        ∃ l' ∈ w.locks, l'.handle.place = some (name :: outer) ∧ l'.hasUndo = true :=
      ho.undo (hown.place hplace) hundo
    cases hhas : l.hasUndo with
    | true =>
      -- The undo file has gone.
      simp only [hhas, if_true] at he
      rw [dropUndo_of_some hu, entryAt_unlink hw hown.hosts (.inl hu)] at he
      split at he
      · exact absurd he (by simp)
      · next hkept =>
        obtain ⟨⟨n, rfl⟩, -⟩ := hthere he
        exact absurd ⟨rfl, by simp [he]⟩ hkept
    | false =>
      simp only [hhas, Bool.false_eq_true, if_false] at he
      obtain ⟨hfile, l', hl', hlplace, hhas'⟩ := hthere he
      refine ⟨hfile, l', hothers hl' ?_, hlplace.trans hplace.symm, hhas'⟩
      rintro rfl
      rw [hhas] at hhas'
      exact absurd hhas' (by simp)
  · refine ⟨l', hothers hl' ?_, rfl, hhas⟩
    rintro rfl
    exact hne rfl
  · obtain ⟨i, hi⟩ := hi
    exact ⟨i, (hown.content_undo hw hspread hbound hg).trans hi⟩

/-- **Ending a transaction frees its database**, and no database holds anything else then. -/
theorem unlock_frees (ho : w.IsOrderly D) (hspread : IsSpread D) (path : Text) :
    (w.unlock path).locks = w.locks.filter (·.holder ≠ some path) ∧
      ∀ {g}, w.Owns D g → (w.unlock path).content g = w.content g := by
  rcases unlock_eq ho path with ⟨hnone, heq⟩ | ⟨l, hl, -, heq⟩
  · rw [heq]
    refine ⟨(List.filter_eq_self.mpr fun l hl => ?_).symm, fun _ => rfl⟩
    simpa using hnone l hl
  · rw [heq]
    refine ⟨rfl, fun {g} hg => ?_⟩
    have hcontent := (ho.lock hl).1.content_undo ho.sound hspread (endLock_bounded ho hl) hg
    exact hcontent

end World

end CompileJournal
