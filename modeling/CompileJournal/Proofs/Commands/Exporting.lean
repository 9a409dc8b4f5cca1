import CompileJournal.Proofs.Commands.Interleaving
import CompileJournal.Proofs.Commands.SameCompile
import CompileJournal.Proofs.Json.RoundTrip
import CompileJournal.Proofs.World.Writing

/-!
# What an export leaves

An export has three stages that can fail: the rows are listed, each of them is decoded, and the
output is opened.  Only the last one changes the output, and nothing fails after it.  So an export
that fails leaves the world as the listing left it, and one that succeeds leaves its text at the
output and nothing else.

The listing is no innocent bystander.  It settles what was left beside the database, which may
remove files there, whether or not the rows can be listed after that.  It does not do so through a
connection that uses the log, nor while the database is closed off, nor where nothing was left.

* `Store.ListedThrough`, `entries_listedThrough`: what the listing leaves;
* `Store.IsHindered`, `entries_of_isHindered`: what keeps the rows from being listed;
* `Exported`, `exportTo_exported`: the three ways in which an export ends;
* `export_completes_or_leaves`, `export_reads_back`: what the output holds afterwards.
-/

namespace CompileJournal

variable {w v w' : World} {s : Store} {c : Connection} {path : Text} {rows : Table} {q : Place}

/-! ## 1. Listing the rows -/

/-- The rows that a store lists, as its connection sees them. -/
def Store.listed (w : World) (s : Store) : Except Failure Table :=
  (s.use w fun w c => w.readRows c .list).2

/-- What is left of a world after the rows were listed through a store. -/
structure Store.ListedThrough (w : World) (s : Store) (v : World) : Prop where
  closed : s.connection? w = none → v = w
  /-- The tree is as it was, if the connection uses the log, or nobody may read, or nothing was left
  beside the database. -/
  untouched : ∀ {c}, s.connection? w = some c → c.memory.isLogging = true ∨
    w.isClosedOff c.handle.file = true ∨ w.IsSettled c.handle → v.disk = w.disk
  near : ∀ {c}, s.connection? w = some c → c.handle.IsNamed →
    w.disk.ChangesOnly c.handle.IsNear (fun _ => False) v.disk
  beside : ∀ {c}, s.connection? w = some c → w.Hosts c.handle →
    w.disk.ChangesOnly c.handle.IsBeside (fun _ => False) v.disk
  cwd : ∀ {c}, s.connection? w = some c → c.handle.IsNamed → v.cwd = w.cwd
  carries : ∀ {c}, s.connection? w = some c → w.Carries c.handle → v.Carries c.handle
  rows : ∀ {c}, s.connection? w = some c → w.Carries c.handle →
    v.table? c.handle = w.table? c.handle

theorem use_readRows_listedThrough (hw : w.IsSound) :
    s.ListedThrough w (s.use w fun w c => w.readRows c .list).1 := by
  unfold Store.use
  cases hc : s.connection? w with
  | none =>
    refine ⟨fun _ => rfl, ?_, ?_, ?_, ?_, ?_, ?_⟩
    all_goals
      intro c hc'
      rw [hc] at hc'
      exact absurd hc' (by simp)
  | some d =>
    have hleaves : w.Carries d.handle → w.Leaves d.handle (w.readRows d .list).world :=
      ((World.isFrame_leaves d.handle).reads.readRows rfl .list).world
    have hnear : d.handle.IsNamed →
        w.ChangesOnly d.handle.IsNear (fun _ => False) (w.readRows d .list).world :=
      ((World.isFrame_near d.handle fun _ => False).reads.readRows rfl .list).world hw
    refine ⟨fun hnone => absurd hnone (by simp [hc]), ?_, ?_, ?_, ?_, ?_, ?_⟩
    all_goals
      intro c hc'
      obtain rfl : d = c := Option.some.inj (hc.symm.trans hc')
    · intro hway
      have hsame : (w.readRows d .list).world = w := by
        rcases hway with hl | hclosed | hsettled
        · exact (World.isReadFrame_logging.readRows hl .list).world
        · exact ((World.isReadFrame_closedOff d.handle).readRows rfl .list).world hclosed
        · exact ((World.isReadFrame_settled d.handle).readRows rfl .list).world hsettled
      change (w.readRows d .list).world.disk = w.disk
      rw [hsame]
    · exact fun hn => (hnear hn).disk
    · exact fun hh => (((World.isFrame_bounded d.handle fun _ => False).reads.readRows rfl
        .list).world hw hh).disk
    · exact fun hn => (hnear hn).cwd
    · exact fun hh => ⟨(hleaves hh).carries.number, (hleaves hh).carries.apart⟩
    · intro hh
      exact World.table?_of_content (hleaves hh).content

theorem entries_eq (w : World) (s : Store) :
    entries w s = ((s.use w fun w c => w.readRows c .list).1, (s.listed w).bind fun rows =>
      (rows.records.mapError .undecodable).map (·.map CompileEntry.ofRecord)) := by
  unfold entries
  rw [Store.records_eq]
  refine Prod.ext rfl ?_
  change Except.map _ (Except.bind (s.listed w) _) = _
  cases s.listed w <;> rfl

theorem entries_listedThrough (hw : w.IsSound) (s : Store) :
    s.ListedThrough w (entries w s).1 := by
  rw [entries_eq]
  exact use_readRows_listedThrough hw

theorem entries_of_records {rs : List Record} (hrows : s.listed w = .ok rows)
    (hrs : rows.records = .ok rs) : (entries w s).2 = .ok (rs.map CompileEntry.ofRecord) := by
  rw [entries_eq, hrows]
  simp only [Except.bind, hrs]
  rfl

theorem records_of_entries {es : List CompileEntry} (hes : (entries w s).2 = .ok es) :
    ∃ rows rs, s.listed w = .ok rows ∧ rows.records = .ok rs ∧
      es = rs.map CompileEntry.ofRecord := by
  rw [entries_eq] at hes
  cases hrows : s.listed w with
  | error e =>
    rw [hrows] at hes
    exact absurd hes (by simp [Except.bind])
  | ok rows =>
  simp only [hrows, Except.bind] at hes
  cases hrs : rows.records with
  | error d =>
    rw [hrs] at hes
    exact absurd hes (by simp [Except.mapError, Except.map])
  | ok rs =>
    rw [hrs] at hes
    exact ⟨rows, rs, rfl, hrs, (Except.ok.inj hes).symm⟩

/-! ## 2. What keeps the rows from being listed -/

/-- What keeps the rows of a store from being listed or decoded. -/
inductive Store.IsHindered (w : World) (s : Store) : Prop where
  | closed (h : s.connection? w = none)
  | closedOff {d : Connection} (hd : s.connection? w = some d)
      (hnolog : d.memory.isLogging = false) (h : w.isClosedOff d.handle.file = true)
  | noTable {d : Connection} (hd : s.connection? w = some d)
      (hright : d.memory.isLogging = true ∨ d.memory.Agrees (w.content d.handle))
      (h : w.table? d.handle = none)
  | undecodable {rows : Table} {row : Row} (hrows : s.listed w = .ok rows) (hrow : row ∈ rows)
      (h : ∀ r, row.record ≠ .ok r)

/-- Nobody reads a database that is closed off. -/
theorem World.readRows_of_isClosedOff (hnolog : c.memory.isLogging = false)
    (h : w.isClosedOff c.handle.file = true) (q : Query) (rows : Table) :
    (w.readRows c q).result ≠ .ok rows := by
  have hread : ∀ d : Connection, d.handle = c.handle → d.memory.isLogging = false →
      w.beginRead d = ⟨w, d, .error .locked⟩ := by
    intro d hd hl
    rw [World.beginRead, if_neg (by simp [hl]), if_pos (hd ▸ h)]
  have hlearnt : (c.memory.learn q).isLogging = false :=
    (Memory.learn_isLogging _ _).trans hnolog
  have hlearn : ∀ s, w.learnFrom c q s = ⟨w, c.remember (c.memory.learn q), .ok ()⟩ ∨
      w.learnFrom c q s = ⟨w, c, .error .noTable⟩ := by
    intro s
    unfold World.learnFrom
    split
    · exact .inl rfl
    · exact .inr rfl
  have hunderstand : ∀ v d, w.understand c q = ⟨v, d, .ok ()⟩ →
      v = w ∧ d.handle = c.handle ∧ d.memory.isLogging = false := by
    intro v d hok
    unfold World.understand World.learnAnew World.readSchema at hok
    rw [hread c rfl hnolog] at hok
    split at hok
    · obtain ⟨rfl, rfl, -⟩ := Turn.mk.inj hok
      exact ⟨rfl, rfl, hnolog⟩
    split at hok
    · exact absurd (Turn.mk.inj hok).2.2 (by simp)
    split at hok
    · rcases hlearn _ with heq | heq
      · obtain ⟨rfl, rfl, -⟩ := Turn.mk.inj (heq.symm.trans hok)
        exact ⟨rfl, rfl, hlearnt⟩
      · exact absurd (Turn.mk.inj (heq.symm.trans hok)).2.2 (by simp)
    · exact absurd (Turn.mk.inj hok).2.2 (by simp)
  unfold World.readRows
  cases hturn : w.understand c q with
  | mk v d r =>
  cases r with
  | error f => simp
  | ok u =>
    obtain ⟨rfl, hd, hl⟩ := hunderstand v d hturn
    simp [hread d hd hl]

/-- **A store that is hindered lists no entries.** -/
theorem entries_of_isHindered (hs : ∀ c, s.connection? w = some c → w.Carries c.handle)
    (h : s.IsHindered w) : ∃ e, (entries w s).2 = .error e := by
  cases hes : (entries w s).2 with
  | error e => exact ⟨e, rfl⟩
  | ok es =>
  exfalso
  obtain ⟨rows, rs, hrows, hrs, -⟩ := records_of_entries hes
  have hread : ∀ {c}, s.connection? w = some c → (w.readRows c .list).result = .ok rows := by
    intro c hc
    rw [Store.listed, Store.use_eq hc] at hrows
    exact Store.result_ok hrows
  cases h with
  | closed hc =>
    rw [Store.listed, Store.use_closed hc] at hrows
    exact absurd hrows (by simp)
  | closedOff hc hnolog hclosed =>
    exact World.readRows_of_isClosedOff hnolog hclosed .list rows (hread hc)
  | noTable hc hright hnone =>
    have htable := World.table?_of_readRows (hs _ hc) hright (hread hc)
    rw [hnone] at htable
    exact absurd htable (by simp)
  | undecodable hrows' hrow hbad =>
    obtain rfl := Except.ok.inj (hrows'.symm.trans hrows)
    obtain ⟨r, hr⟩ := Table.exists_record_of_mem (Table.records_eq_ok.mp hrs) hrow
    exact hbad r hr

/-! ## 3. The output -/

/-- What lay somewhere after a change, and is no new file, lay there before. -/
theorem World.entryAt_before {touched : Place → Prop} {written : FileNumber → Prop}
    (hb : w.disk.ChangesOnly touched written v.disk)
    (hfar : ∃ x, w.disk.entryAt x = none ∧ ¬touched x) {x : Place} {e : Entry}
    (hx : v.disk.entryAt x = some e) (hold : ∀ n, e = .file n → n < w.disk.contents.length) :
    w.disk.entryAt x = some e := by
  obtain ⟨y, hfree, hy⟩ := hfar
  by_cases hfile : ∃ n, e = .file n
  · obtain ⟨n, rfl⟩ := hfile
    exact (hb.file hx).resolve_right (Nat.not_le_of_lt (hold n rfl))
  · exact hb.came hfree hy hx (not_exists.mp hfile)

/-- A path that leads to something after a change, and not to a new file, led to it before. -/
theorem World.find_before {touched : Place → Prop} {written : FileNumber → Prop}
    (hcwd : v.cwd = w.cwd) (hb : w.disk.ChangesOnly touched written v.disk)
    (hfar : ∃ x, w.disk.entryAt x = none ∧ ¬touched x) {e : Entry}
    (hfind : v.find path = .ok ⟨q, 0⟩) (hq : v.disk.entryAt q = some e)
    (hold : ∀ n, e = .file n → n < w.disk.contents.length) :
    w.find path = .ok ⟨q, 0⟩ ∧ w.disk.entryAt q = some e := by
  refine ⟨World.find_kept hcwd.symm hfind ?_, World.entryAt_before hb hfar hq hold⟩
  rintro x e' hx (rfl | ⟨t, rfl⟩ | rfl)
  · exact World.entryAt_before hb hfar hx (by simp)
  · exact World.entryAt_before hb hfar hx (by simp)
  · obtain rfl := Option.some.inj (hq.symm.trans hx)
    exact World.entryAt_before hb hfar hq hold

namespace Store.ListedThrough

variable (hv : s.ListedThrough w v) (hw : w.IsSound)
  (hnamed : ∀ c, s.connection? w = some c → c.handle.IsNamed)
include hv hw hnamed

theorem sound : v.IsSound := by
  cases hc : s.connection? w with
  | none =>
    rw [hv.closed hc]
    exact hw
  | some c =>
    have hb := hv.near hc (hnamed c hc)
    refine ⟨hb.tree, ?_⟩
    rw [hv.cwd hc (hnamed c hc)]
    exact hb.directory hw.cwd

/-- What a path leads to after the listing, it has led to before. -/
theorem find_before {e : Entry} (hfind : v.find path = .ok ⟨q, 0⟩)
    (hq : v.disk.entryAt q = some e) (hold : ∀ n, e = .file n → n < w.disk.contents.length) :
    w.find path = .ok ⟨q, 0⟩ ∧ w.disk.entryAt q = some e := by
  cases hc : s.connection? w with
  | none =>
    obtain rfl := hv.closed hc
    exact ⟨hfind, hq⟩
  | some c =>
    have hb := hv.near hc (hnamed c hc)
    have hfar := World.exists_far hw c.handle
    exact World.find_before (hv.cwd hc (hnamed c hc)) hb hfar hfind hq hold

theorem leadsToNoPipe (hpipe : w.LeadsToNoPipe path) : v.LeadsToNoPipe path := by
  intro q hfind hq
  obtain ⟨hfind', hq'⟩ := hv.find_before hw hnamed hfind hq (by simp)
  exact hpipe q hfind' hq'

theorem leadsTo {n : FileNumber} (hn : n < w.disk.contents.length) (h : v.LeadsTo path n) :
    w.LeadsTo path n := by
  obtain ⟨q, hfind, hq⟩ := h
  exact ⟨q, hv.find_before hw hnamed hfind hq fun m hm => Entry.file.inj hm ▸ hn⟩

end Store.ListedThrough

/-- A text that is written elsewhere leaves the rows of a database. -/
theorem World.WritesTo.table?_eq {t : Text} {n : FileNumber} {h : Handle}
    (hwrites : WritesTo w path t q n w') (hh : w.Carries h) (hpath : ¬w.LeadsTo path h.file) :
    w'.table? h = w.table? h := by
  refine World.table?_of_content (hwrites.contents fun heq => ?_)
  subst heq
  rcases hwrites.before with ⟨hfind, hq⟩ | ⟨-, hnew⟩
  · exact hpath ⟨q, hfind, hq⟩
  · exact Nat.not_lt_of_le hnew hh.number

/-- The three ways in which an export ends: the rows cannot be listed or decoded, the output cannot
be opened, or it holds the text of all rows. -/
inductive Exported (w : World) (s : Store) (path : Text) : Outcome Nat → Prop
  | unlisted {e} (h : (entries w s).2 = .error e) :
    Exported w s path ⟨(entries w s).1, [], .error e⟩
  | unopened {es e} (hes : (entries w s).2 = .ok es)
      (h : (entries w s).1.openForWriting path = .error e) :
    Exported w s path ⟨(entries w s).1, [], .error e⟩
  | written {rows rs q n w'} (hrows : s.listed w = .ok rows) (hrs : rows.records = .ok rs)
      (h : World.WritesTo (entries w s).1 path
        (CompileEntry.renderAll (rs.map CompileEntry.ofRecord)) q n w') :
    Exported w s path ⟨w', [.wrote rows.length path], .ok rows.length⟩

theorem exportTo_exported (hw : w.IsSound)
    (hnamed : ∀ c, s.connection? w = some c → c.handle.IsNamed) (hpipe : w.LeadsToNoPipe path) :
    Exported w s path (exportTo w s path) := by
  have hlisted := entries_listedThrough hw s
  unfold exportTo
  cases hentries : entries w s with
  | mk v result =>
  have hv : (entries w s).1 = v := congrArg Prod.fst hentries
  have hresult : (entries w s).2 = result := congrArg Prod.snd hentries
  cases result with
  | error e => exact hv ▸ .unlisted hresult
  | ok es =>
  simp only
  cases hwrite : v.writeText path (CompileEntry.renderAll es) with
  | error e =>
    refine hv ▸ .unopened hresult ?_
    rw [hv]
    unfold World.writeText at hwrite
    split at hwrite
    · next hopen => rw [hopen, Except.error.inj hwrite]
    · exact absurd hwrite (by simp)
    · exact absurd hwrite (by simp)
  | ok w' =>
    rw [hv] at hlisted
    obtain ⟨q, n, hwrites⟩ := World.writeText_ok (hlisted.sound hw hnamed)
      (hlisted.leadsToNoPipe hw hnamed hpipe) hwrite
    obtain ⟨rows, rs, hrows, hrs, rfl⟩ := records_of_entries hresult
    have hfiles := Table.files_of_records (Table.records_eq_ok.mp hrs)
    have hlength : (rs.map CompileEntry.ofRecord).length = rows.length := by
      simpa using congrArg List.length hfiles
    rw [hlength]
    exact .written hrows hrs (hv ▸ hwrites)

namespace Exported

variable {o : Outcome Nat}

/-- However an export ends, the rows are what they were. -/
theorem table?_eq (ho : Exported w s path o) (hw : w.IsSound)
    (hnamed : ∀ c, s.connection? w = some c → c.handle.IsNamed) (hc : s.connection? w = some c)
    (hcarries : w.Carries c.handle) (hpath : ¬w.LeadsTo path c.handle.file) :
    o.world.table? c.handle = w.table? c.handle := by
  have hlisted := entries_listedThrough hw s
  have hrows := hlisted.rows hc hcarries
  cases ho with
  | unlisted h => exact hrows
  | unopened hes h => exact hrows
  | written hlist hrs h =>
    refine (h.table?_eq (hlisted.carries hc hcarries) fun hleads => ?_).trans hrows
    exact hpath (hlisted.leadsTo hw hnamed hcarries.number hleads)

/-- An export that succeeds leaves the text of the entries at its output. -/
theorem readText (ho : Exported w s path o) {n : Nat} (hok : o.result = .ok n) :
    ∃ es, (entries w s).2 = .ok es ∧ o.world.readText path = .ok (CompileEntry.renderAll es) := by
  cases ho with
  | unlisted h => exact absurd hok (by simp)
  | unopened hes h => exact absurd hok (by simp)
  | written hrows hrs h => exact ⟨_, entries_of_records hrows hrs, h.readText⟩

end Exported

/-! ## 4. The theorems -/

/-- **An export completes or leaves its output alone.**  If the store is hindered or the output
cannot be opened, the world is as the listing left it; otherwise the output holds the text of all
rows that are listed, and nothing else has changed.  The rows themselves never change.  Those that
are listed are those of the database, unless it has changed behind the back of the connection. -/
theorem export_completes_or_leaves (hw : w.IsSound)
    (hs : ∀ c, s.connection? w = some c →
      c.handle.IsNamed ∧ w.Carries c.handle ∧ ¬w.LeadsTo path c.handle.file)
    (hpipe : w.LeadsToNoPipe path) :
    Exported w s path (exportTo w s path) ∧ s.ListedThrough w (entries w s).1 ∧
      (s.IsHindered w → ∃ e, exportTo w s path = ⟨(entries w s).1, [], .error e⟩) ∧
      ∀ c, s.connection? w = some c →
        (exportTo w s path).world.table? c.handle = w.table? c.handle ∧
          (c.memory.isLogging = true ∨ c.memory.Agrees (w.content c.handle) →
            ∀ rows, s.listed w = .ok rows → w.table? c.handle = some rows) := by
  have hnamed := fun c hc => (hs c hc).1
  have hexported := exportTo_exported hw hnamed hpipe
  refine ⟨hexported, entries_listedThrough hw s, fun hhindered => ?_,
    fun c hc => ⟨?_, fun hright rows hrows => ?_⟩⟩
  · obtain ⟨e, he⟩ := entries_of_isHindered (fun c hc => (hs c hc).2.1) hhindered
    refine ⟨e, ?_⟩
    unfold exportTo
    rw [show entries w s = ((entries w s).1, .error e) from Prod.ext rfl he]
  · obtain ⟨-, hcarries, hpath⟩ := hs c hc
    exact hexported.table?_eq hw hnamed hc hcarries hpath
  · rw [Store.listed, Store.use_eq hc] at hrows
    exact World.table?_of_readRows (hs c hc).2.1 hright (Store.result_ok hrows)

/-- The database of the worlds below. -/
def exportedHandle : Handle := ⟨1, some ["x.db"]⟩

theorem visitedWorld_isSound : visitedWorld.IsSound :=
  ⟨Disk.isTree_of_entries (by decide) (by decide), by decide⟩

theorem visitedWorld_hosts : visitedWorld.Hosts exportedHandle := by
  refine ⟨by decide, fun hp => ?_⟩
  rw [← Option.some.inj hp]
  decide

theorem visitedWorld_isNamed : exportedHandle.IsNamed :=
  World.Hosts.isNamed visitedWorld_hosts visitedWorld_isSound

theorem visitedWorld_handle (hc : CommandLine.firstStore.connection? visitedWorld = some c) :
    c.handle = exportedHandle := by
  have hhandle : (CommandLine.firstStore.connection? visitedWorld).map Connection.handle =
      some exportedHandle := by decide
  rw [hc] at hhandle
  exact Option.some.inj hhandle

theorem visitedWorld_main (hfind : visitedWorld.find "/main.c" = .ok ⟨q, 0⟩) :
    visitedWorld.disk.entryAt q = some (.file 0) := by
  have hmain : visitedWorld.find "/main.c" = .ok ⟨["main.c"], 0⟩ := by decide
  obtain rfl := congrArg Spot.place (Except.ok.inj (hmain.symm.trans hfind))
  decide

theorem visitedWorld_leadsToNoPipe : visitedWorld.LeadsToNoPipe "/main.c" := by
  intro q hfind
  rw [visitedWorld_main hfind]
  decide

/-- The source file is overwritten, and the rows stay. -/
theorem export_completes_or_leaves_visitedWorld :
    (exportTo visitedWorld CommandLine.firstStore "/main.c").result = .ok 2 ∧
      (exportTo visitedWorld CommandLine.firstStore "/main.c").world.table? exportedHandle =
        visitedWorld.table? exportedHandle := by
  have hstore : ∀ c, CommandLine.firstStore.connection? visitedWorld = some c →
      c.handle.IsNamed ∧ visitedWorld.Carries c.handle ∧
        ¬visitedWorld.LeadsTo "/main.c" c.handle.file := by
    intro c hc
    rw [visitedWorld_handle hc]
    refine ⟨visitedWorld_isNamed, World.Hosts.carries visitedWorld_hosts visitedWorld_isSound, ?_⟩
    rintro ⟨q, hfind, hq⟩
    exact absurd ((visitedWorld_main hfind).symm.trans hq) (by decide)
  obtain ⟨-, -, -, hrows⟩ := export_completes_or_leaves visitedWorld_isSound hstore
    visitedWorld_leadsToNoPipe
  have hopen : (CommandLine.firstStore.connection? visitedWorld).isSome := by decide
  obtain ⟨c, hc⟩ := Option.isSome_iff_exists.mp hopen
  exact ⟨by decide, visitedWorld_handle hc ▸ (hrows c hc).1⟩

/-- The root with an open store, from whose database another program has removed the table. It has
left a file beside the database. -/
def strandedWorld : World :=
  let w := (Store.openAt CommandLine.mainWorld "/x.db" CommandLine.firstStore.timeout).1
  (w.visitDrop "/x.db").1.putFile ["x.db-journal"] (.text "abc")

/-- An export that fails may change the tree, since the listing removes what was left beside the
database; and one that succeeds may lack a row of the table, if the connection does not know that
the file has changed. -/
theorem not_export_exact :
    (¬∀ (w : World) (s : Store) (path : Text) (e : Failure), w.IsSound →
      (∀ c, s.connection? w = some c → w.Hosts c.handle ∧ ¬w.LeadsTo path c.handle.file) →
      w.LeadsToNoPipe path → (exportTo w s path).result = .error e →
      (exportTo w s path).world.disk = w.disk) ∧
    ¬∀ (w : World) (s : Store) (path : Text) (n : Nat), w.IsSound →
      (∀ c, s.connection? w = some c → w.Hosts c.handle ∧ ¬w.LeadsTo path c.handle.file) →
      w.LeadsToNoPipe path → (exportTo w s path).result = .ok n →
      ∀ c, s.connection? w = some c → ∀ rows, w.table? c.handle = some rows → n = rows.length := by
  -- The output is missing in both worlds, so it leads neither to a database nor to a pipe.
  have hmissing : ∀ {w : World} {e : Errno}, w.find "/out.json" = .error e →
      (∀ n, ¬w.LeadsTo "/out.json" n) ∧ w.LeadsToNoPipe "/out.json" := by
    intro w e he
    refine ⟨fun n => ?_, fun q hfind => ?_⟩
    · rintro ⟨q, hfind, -⟩
      exact absurd (he.symm.trans hfind) (by simp)
    · exact absurd (he.symm.trans hfind) (by simp)
  have hhandle : ∀ {w : World} {s : Store} {h : Handle},
      (s.connection? w).map Connection.handle = some h → ∀ {c}, s.connection? w = some c →
        c.handle = h := by
    intro w s h hmap c hc
    rw [hc] at hmap
    exact Option.some.inj hmap
  constructor
  · intro hall
    have hlost := hmissing (w := strandedWorld) (e := .notFound) (by decide +kernel)
    have hsame := hall strandedWorld CommandLine.firstStore "/out.json" (.database .noTable)
      ⟨Disk.isTree_of_entries (by decide +kernel) (by decide +kernel), by decide +kernel⟩
      (fun c hc => by
        rw [hhandle (h := exportedHandle) (by decide +kernel) hc]
        refine ⟨⟨by decide +kernel, fun hp => ?_⟩, hlost.1 _⟩
        rw [← Option.some.inj hp]
        decide +kernel) hlost.2 (by decide +kernel)
    exact absurd hsame (by decide +kernel)
  · intro hall
    obtain ⟨hsound, hhosts, htable⟩ := Crew.staleWorld_holds
    have hlost := hmissing (w := Crew.staleWorld) (e := .notFound) (by decide +kernel)
    have hfew := hall Crew.staleWorld (Crew.sharedCall 0 "cc" []).store "/out.json" 0
      hsound (fun c hc => by
        rw [hhandle (h := ⟨2, some ["x.db"]⟩) (by decide +kernel) hc]
        exact ⟨hhosts, hlost.1 _⟩) hlost.2 (by decide +kernel)
    have hopen : ((Crew.sharedCall 0 "cc" []).store.connection? Crew.staleWorld).isSome := by
      decide +kernel
    obtain ⟨c, hc⟩ := Option.isSome_iff_exists.mp hopen
    refine absurd (hfew c hc [⟨"/a.c", "cc", "", "/"⟩] ?_) (by decide)
    rw [hhandle (h := ⟨2, some ["x.db"]⟩) (by decide +kernel) hc]
    exact htable

/-- **What is exported reads back exactly.**  Where the rows can be listed and decoded, the text of
their entries is printable ASCII, as JSON it is the list of the entries and of no other ones, and an
export that succeeds leaves just this text at its output. -/
theorem export_reads_back (hrows : s.listed w = .ok rows)
    (hdecode : ∀ row ∈ rows, ∃ r, row.record = .ok r) :
    ∃ es, (entries w s).2 = .ok es ∧
      (∀ ch ∈ CompileEntry.renderAll es, CompileEntry.IsPlain ch) ∧
      Json.parse (CompileEntry.renderAll es) = some (.array (es.map CompileEntry.json)) ∧
      (∀ es', CompileEntry.renderAll es' = CompileEntry.renderAll es → es' = es) ∧
      (w.IsSound → (∀ c, s.connection? w = some c → c.handle.IsNamed) →
        ∀ path, w.LeadsToNoPipe path → ∀ n, (exportTo w s path).result = .ok n →
          (exportTo w s path).world.readText path = .ok (CompileEntry.renderAll es)) := by
  obtain ⟨rs, hrs, -⟩ := Table.records_ok hdecode
  refine ⟨rs.map CompileEntry.ofRecord, entries_of_records hrows hrs,
    CompileEntry.isPlain_renderAll _, CompileEntry.parse_renderAll _,
    fun es' hes' => CompileEntry.renderAll_injective hes', fun hw hnamed path hpipe n hok => ?_⟩
  obtain ⟨es, hes, hread⟩ := (exportTo_exported hw hnamed hpipe).readText hok
  obtain rfl := Except.ok.inj (hes.symm.trans (entries_of_records hrows hrs))
  exact hread

/-- Rows that another program has written are exported over a source file and read back. -/
theorem export_reads_back_visitedWorld :
    ∃ es, (entries visitedWorld CommandLine.firstStore).2 = .ok es ∧ es.length = 2 ∧
      Json.parse (CompileEntry.renderAll es) = some (.array (es.map CompileEntry.json)) ∧
      (exportTo visitedWorld CommandLine.firstStore "/main.c").world.readText "/main.c" =
        .ok (CompileEntry.renderAll es) := by
  have hrows : CommandLine.firstStore.listed visitedWorld = .ok
      [⟨"/main.c", "cc", "'-D A'  \"-I\\b\" ", "/"⟩, ⟨"gone", "", "", ""⟩] := by decide
  have hnamed : ∀ c, CommandLine.firstStore.connection? visitedWorld = some c →
      c.handle.IsNamed := by
    intro c hc
    rw [visitedWorld_handle hc]
    exact visitedWorld_isNamed
  obtain ⟨es, hes, -, hparse, -, hread⟩ := export_reads_back hrows (by
    rintro row hrow
    rcases List.mem_cons.mp hrow with rfl | hrow
    · exact ⟨⟨"/main.c", "cc", ["-D A", "-I\\b"], "/"⟩, by decide⟩
    · obtain rfl := List.mem_singleton.mp hrow
      exact ⟨⟨"gone", "", [], ""⟩, by decide⟩)
  have hlisted : (entries visitedWorld CommandLine.firstStore).2 =
      .ok [⟨"/", "/main.c", ["cc", "-D A", "-I\\b", "/main.c"]⟩, ⟨"", "gone", ["", "gone"]⟩] := by
    decide
  refine ⟨es, hes, ?_, hparse, hread visitedWorld_isSound hnamed "/main.c"
    visitedWorld_leadsToNoPipe 2 (by decide)⟩
  rw [← Except.ok.inj (hlisted.symm.trans hes)]
  rfl

end CompileJournal
