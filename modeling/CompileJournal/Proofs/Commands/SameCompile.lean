import CompileJournal.Proofs.CommandLine.Recall
import CompileJournal.Proofs.Sessions.Steps

/-!
# The export and the replays say the same

The export reads all rows in order, a replay looks up the row of one file, and each puts the
compile together on its own.  Both find the rows of the table, in which a file has at most one; and
both write the compiler, the flags and the file behind each other.  So the entries of the export are
the replays without overrides: each entry has its replay, as long as its file leads to itself, and
each replay has its entry and no other.

* `Store.Shows`: a store that can be read, and the rows it holds;
* `shows_of_isOn`, `Session.shows_of_reaches`, `shows_of_reads`: the stores that can be read;
* `entries_of_shows`, `replay_of_shows`: what the two find;
* `entries_are_replays`: that it is the same.
-/

namespace CompileJournal

variable {w : World} {s : Store} {rows : Table} {row : Row} {r : Record}

/-! ## 1. Two ways to write a compile -/

/-- An entry of the export and a command are the same compile. -/
structure CompileEntry.IsReplayedBy (e : CompileEntry) (c : Command) : Prop where
  argv : c.argv = e.arguments
  workdir : c.workdir = e.directory

theorem CompileEntry.isReplayedBy_ofRecord (r : Record) :
    (ofRecord r).IsReplayedBy (({} : Overrides).command r) where
  argv := by
    rw [Overrides.argv_command]
    simp [ofRecord, inFront, orElse]
  workdir := Overrides.workdir_command _ r

/-- What a row is read as has the cells of the row, and the words of its line. -/
theorem Row.record_eq_ok : row.record = .ok r ↔
    ∃ flags, Words.decode row.line = .ok flags ∧ r = ⟨row.file, row.driver, flags, row.workdir⟩ := by
  unfold record
  cases Words.decode row.line with
  | error d => simp [Except.map]
  | ok flags => simp [Except.map, eq_comm]

/-- What a row is read as keeps the file of the row. -/
theorem Row.file_of_record (h : row.record = .ok r) : r.file = row.file := by
  obtain ⟨flags, -, rfl⟩ := Row.record_eq_ok.mp h
  rfl

namespace Table

/-- The records of a table have the files of its rows, in the same order. -/
theorem files_of_records {rs : List Record}
    (h : List.Forall₂ (fun row r => row.record = .ok r) rows rs) :
    rs.map Record.file = rows.map Row.file := by
  induction h with
  | nil => rfl
  | cons hr _ ih => rw [List.map_cons, List.map_cons, ih, Row.file_of_record hr]

/-- The records of a table are those of its rows. -/
theorem mem_records {rs : List Record}
    (h : List.Forall₂ (fun row r => row.record = .ok r) rows rs) :
    r ∈ rs ↔ ∃ row ∈ rows, row.record = .ok r := by
  induction h with
  | nil => simp
  | cons hr _ ih => simp [ih, hr, eq_comm (a := r)]

end Table

/-! ## 2. Stores that can be read -/

/-- **The rows that are read are those of the database**, if the connection uses the log or is in
agreement with the file. -/
theorem World.table?_of_readRows {c : Connection} {q : Query}
    (hh : w.Carries c.handle)
    (hright : c.memory.isLogging = true ∨ c.memory.Agrees (w.content c.handle))
    (hok : (w.readRows c q).result = .ok rows) : w.table? c.handle = some rows := by
  have hpasses := understand_passes hh q
  unfold readRows at hok
  cases hunderstand : w.understand c q with
  | mk v d r =>
  rw [hunderstand] at hpasses hok
  cases r with
  | error f => exact absurd hok (by simp)
  | ok u =>
  have hcontent : v.content d.handle = w.content c.handle := hpasses.content
  have hsees := beginRead_sees hpasses.carries
  have hright' : d.memory.isLogging = true ∨ d.memory.Agrees (v.content d.handle) := by
    rw [hcontent]
    exact hright.elim (fun hl => .inl (hpasses.logging hl)) hpasses.agrees
  cases hread : v.beginRead d with
  | mk v' d' r =>
  simp only [hread] at hok
  rw [hread] at hsees
  cases r with
  | error f => exact absurd hok (by simp)
  | ok seen =>
  have hseen := hsees.seen rfl (hright'.imp_left hsees.logging)
  rw [hcontent] at hseen
  have htable : seen.bind Image.table = w.table? c.handle := by
    rw [World.table?, Content.eq_image_of_seen hseen]
  simp only [rowsOf, htable] at hok
  cases hrows : w.table? c.handle with
  | none =>
    rw [hrows] at hok
    exact absurd hok (by simp)
  | some rows' =>
    rw [hrows] at hok
    exact congrArg some (Except.ok.inj hok)

namespace Store

/-- A store that can be read, with its rows: whichever statement asks for them, they are given, and
no file has two. -/
structure Shows (w : World) (s : Store) (rows : Table) : Prop where
  reads : ∀ q, (s.use w fun w c => w.readRows c q).2 = .ok rows
  sorted : Table.IsSorted rows

/-- In an orderly world a store can be read unless a transaction from outside has closed off its
database. -/
theorem shows_of_isOn {D : Place → Prop} {h : Handle} (ho : w.IsOrderly D) (hs : s.IsOn w h)
    (hreadable : w.IsReadable h) (hrows : w.table? h = some rows) : s.Shows w rows where
  reads q := by
    obtain ⟨-, -, -, hresult⟩ := readRows_isOn ho hs q
    cases hread : (s.use w fun w c => w.readRows c q).2 with
    | ok rows' =>
      rw [hread] at hresult
      rw [Option.some.inj (hresult.2.symm.trans hrows)]
    | error e =>
      rw [hread] at hresult
      exact (hresult.absurd hreadable id hrows).elim
  sorted := by
    obtain ⟨i, hi, htable⟩ := World.content_of_table hrows
    exact ((hs.owns ho).made i hi).sorted htable

/-- Any other store can be read, too, if none of its statements is refused, and if it uses the log
of its database or is in agreement with it: then all of them give the rows of the database. -/
theorem shows_of_reads {c : Connection} (hw : w.IsSound) (hc : s.connection? w = some c)
    (hh : w.Hosts c.handle)
    (hright : c.memory.isLogging = true ∨ c.memory.Agrees (w.content c.handle))
    (hsorted : ∀ rows, w.table? c.handle = some rows → Table.IsSorted rows)
    (hreads : ∀ q, ∃ rows, (s.use w fun w c => w.readRows c q).2 = .ok rows) :
    ∃ rows, w.table? c.handle = some rows ∧ s.Shows w rows := by
  have hrows : ∀ q rows, (s.use w fun w c => w.readRows c q).2 = .ok rows →
      w.table? c.handle = some rows := by
    intro q rows hq
    rw [use_eq hc] at hq
    exact World.table?_of_readRows (hh.carries hw) hright (result_ok hq)
  obtain ⟨rows, hlist⟩ := hreads .list
  have htable := hrows .list rows hlist
  refine ⟨rows, htable, fun q => ?_, hsorted rows htable⟩
  obtain ⟨rows', hq⟩ := hreads q
  rw [hq, Option.some.inj ((hrows q rows' hq).symm.trans htable)]

/-- The record of a file, in a store that can be read. -/
theorem Shows.get (h : s.Shows w rows) (file : Text) :
    (s.get w file).2 = recordIn file rows := by
  rw [get_eq, h.reads]
  rfl

/-- All records of a store that can be read. -/
theorem Shows.records (h : s.Shows w rows) :
    (s.records w).2 = rows.records.mapError .undecodable := by
  rw [records_eq, h.reads]
  rfl

end Store

/-- **Every store of a session that comes about can be read** while it is open and its database has
the table and is not closed off, whatever was recorded in it and by whom. -/
theorem Session.shows_of_reaches {D : Place → Prop} {t t' : Session} {name : Text}
    {c : Connection} (hb : Begins D t) (hr : Reaches D t t') (hs : t'.store? name = some s)
    (hc : s.connection? t'.world = some c) (hreadable : t'.world.IsReadable c.handle)
    (hrows : t'.world.table? c.handle = some rows) : s.Shows t'.world rows :=
  have ho := hr.isOrderly hb
  Store.shows_of_isOn ho.world (ho.isOn hs hc) hreadable hrows

/-! ## 3. What the export and a replay find -/

/-- The export of a store that can be read. -/
theorem entries_of_shows (h : s.Shows w rows) {rs : List Record} (hrs : rows.records = .ok rs) :
    (entries w s).2 = .ok (rs.map CompileEntry.ofRecord) := by
  simp only [entries, h.records, hrs]
  rfl

/-- The record of a file is found in its row. -/
theorem Store.recordIn_eq_some {file : Text} : recordIn file rows = .ok (some r) ↔
    ∃ row, rows.get? file = some row ∧ row.record = .ok r := by
  unfold recordIn
  cases rows.get? file with
  | none => simp
  | some row => cases h : row.record <;> simp [h, Except.mapError, Except.map]

/-- **A replay succeeds if the file has a row that can be decoded**, and gives its command. -/
theorem replay_of_shows (h : s.Shows w rows) {cwd input : Text} {o : Overrides} {c : Command} :
    (replay w s cwd input o).result = .ok c ↔
      ∃ row r, rows.get? row.file = some row ∧ row.record = .ok r ∧
        w.resolve cwd input = .ok row.file ∧ c = o.command r := by
  unfold replay
  cases hfile : w.resolve cwd input with
  | error e => simp
  | ok file =>
  have hget : s.get w file = ((s.get w file).1, Store.recordIn file rows) :=
    Prod.ext rfl (h.get file)
  simp only
  rw [hget]
  constructor
  · intro hok
    cases hfound : Store.recordIn file rows with
    | error e =>
      rw [hfound] at hok
      exact absurd hok (by simp)
    | ok r? =>
    cases r? with
    | none =>
      rw [hfound] at hok
      exact absurd hok (by simp)
    | some r =>
      rw [hfound] at hok
      obtain ⟨row, hrow, hr⟩ := Store.recordIn_eq_some.mp hfound
      obtain rfl : row.file = file := by simpa using List.find?_some hrow
      refine ⟨row, r, hrow, hr, rfl, (Except.ok.inj hok).symm.trans ?_⟩
      rw [← Row.file_of_record hr]
  · rintro ⟨row, r, hrow, hr, hsame, rfl⟩
    obtain rfl := Except.ok.inj hsame
    rw [Store.recordIn_eq_some.mpr ⟨row, hrow, hr⟩]
    simp only [← Row.file_of_record hr]

/-! ## 4. The same compiles -/

/-- A root with a source file and an open store, into whose database another program has put rows
as nobody would record them. -/
def visitedWorld : World :=
  let w := (Store.openAt CommandLine.mainWorld "/x.db" CommandLine.firstStore.timeout).1
  let w := (w.visitPut "/x.db" ⟨"/main.c", "cc", "'-D A'  \"-I\\b\" ", "/"⟩).1
  (w.visitPut "/x.db" ⟨"gone", "", "", ""⟩).1

/-- **The entries of the export are the replays without overrides**, in a store that can be read
and all of whose rows can be decoded.  There is one entry for each file, in the order of the files.
Each is what the replay of its file does, from any directory in which the file leads to itself; and
each replay that succeeds, under any name of a file, is that of one entry. -/
theorem entries_are_replays (h : s.Shows w rows)
    (hdecodes : ∀ row ∈ rows, ∃ flags, Words.decode row.line = .ok flags) :
    ∃ es, (entries w s).2 = .ok es ∧
      es.map CompileEntry.file = rows.map Row.file ∧
      es.Pairwise (fun e e' => e.file < e'.file) ∧
      (∀ e ∈ es, ∀ cwd, w.resolve cwd e.file = .ok e.file →
        ∃ c, (replay w s cwd e.file {}).result = .ok c ∧ e.IsReplayedBy c) ∧
      ∀ cwd input c, (replay w s cwd input {}).result = .ok c →
        ∃ e ∈ es, w.resolve cwd input = .ok e.file ∧ e.IsReplayedBy c ∧
          ∀ e' ∈ es, e'.file = e.file → e' = e := by
  have hreadable : ∀ row ∈ rows, ∃ r, row.record = .ok r := by
    intro row hrow
    obtain ⟨flags, hflags⟩ := hdecodes row hrow
    exact ⟨_, by rw [Row.record, hflags]; rfl⟩
  obtain ⟨rs, hrs, hall⟩ := Table.records_ok hreadable
  have hfiles : (rs.map CompileEntry.ofRecord).map CompileEntry.file = rows.map Row.file := by
    rw [← Table.files_of_records hall, List.map_map]
    rfl
  have hsorted : (rs.map CompileEntry.ofRecord).Pairwise fun e e' => e.file < e'.file := by
    have hrows : (rows.map Row.file).Pairwise (· < ·) := List.pairwise_map.mpr h.sorted
    rw [← hfiles] at hrows
    exact List.pairwise_map.mp hrows
  refine ⟨_, entries_of_shows h hrs, hfiles, hsorted, fun e he cwd hself => ?_,
    fun cwd input c hok => ?_⟩
  · obtain ⟨r, hr, rfl⟩ := List.mem_map.mp he
    obtain ⟨row, hrow, hread⟩ := (Table.mem_records hall).mp hr
    have hfile : r.file = row.file := Row.file_of_record hread
    have hget : rows.get? row.file = some row := h.sorted.get?_eq_some.mpr ⟨hrow, rfl⟩
    have hself' : w.resolve cwd r.file = .ok row.file := hfile ▸ hself
    exact ⟨_, (replay_of_shows h).mpr ⟨row, r, hget, hread, hself', rfl⟩,
      CompileEntry.isReplayedBy_ofRecord r⟩
  · obtain ⟨row, r, hget, hread, hfile, rfl⟩ := (replay_of_shows h).mp hok
    have hrow := (h.sorted.get?_eq_some.mp hget).1
    have hmem : CompileEntry.ofRecord r ∈ rs.map CompileEntry.ofRecord :=
      List.mem_map_of_mem ((Table.mem_records hall).mpr ⟨row, hrow, hread⟩)
    refine ⟨_, hmem, ?_, CompileEntry.isReplayedBy_ofRecord r, fun e' he' hsame => ?_⟩
    · rw [hfile]
      exact congrArg Except.ok (Row.file_of_record hread).symm
    · -- No two rows have one file, so no two entries do.
      obtain ⟨r', hr', rfl⟩ := List.mem_map.mp he'
      obtain ⟨row', hrow', hread'⟩ := (Table.mem_records hall).mp hr'
      have hrows : row'.file = row.file := by
        rw [← Row.file_of_record hread, ← Row.file_of_record hread']
        exact hsame
      have hget' := h.sorted.get?_eq_some.mpr ⟨hrow', hrows⟩
      obtain rfl := Option.some.inj (hget'.symm.trans hget)
      rw [Except.ok.inj (hread'.symm.trans hread)]

/-- Rows that another program has written: the one of a file that is there is exported and
replayed as the same compile. -/
theorem entries_are_replays_visitedWorld :
    CommandLine.firstStore.Shows visitedWorld [⟨"/main.c", "cc", "'-D A'  \"-I\\b\" ", "/"⟩,
      ⟨"gone", "", "", ""⟩] ∧
    ∃ c, (replay visitedWorld CommandLine.firstStore "/" "/main.c" {}).result = .ok c ∧
      CompileEntry.IsReplayedBy ⟨"/", "/main.c", ["cc", "-D A", "-I\\b", "/main.c"]⟩ c := by
  have hshows : CommandLine.firstStore.Shows visitedWorld
      [⟨"/main.c", "cc", "'-D A'  \"-I\\b\" ", "/"⟩, ⟨"gone", "", "", ""⟩] := by
    refine ⟨fun q => ?_, ?_⟩
    · cases q <;> decide
    · refine List.pairwise_pair.mpr ?_
      decide
  refine ⟨hshows, ?_⟩
  obtain ⟨es, hes, -, -, hreplayed, -⟩ := entries_are_replays hshows (by
    rintro row hrow
    rcases List.mem_cons.mp hrow with rfl | hrow
    · exact ⟨["-D A", "-I\\b"], by decide⟩
    · obtain rfl := List.mem_singleton.mp hrow
      exact ⟨[], by decide⟩)
  have hlisted : (entries visitedWorld CommandLine.firstStore).2 =
      .ok [⟨"/", "/main.c", ["cc", "-D A", "-I\\b", "/main.c"]⟩, ⟨"", "gone", ["", "gone"]⟩] := by
    decide
  obtain rfl := Except.ok.inj (hes.symm.trans hlisted)
  exact hreplayed _ List.mem_cons_self "/" (by decide)

end CompileJournal
