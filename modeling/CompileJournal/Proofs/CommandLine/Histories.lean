import CompileJournal.Proofs.Arguments.Pairing
import CompileJournal.Proofs.CommandLine.Footprint
import CompileJournal.Proofs.CommandLine.Recall

/-!
# The journal over its whole life

A database comes into being empty and is used by one run after the other, in any directories, with
any flags and in any of the modes, and between two runs the tree may change in every way, moving
the database included.  As long as nobody but runs puts rows into it, each of its rows tells of a
compile that took place, and the cells of the row are in the form that readers of the journal rely
on: the file is named by its real path, the flags can be read back as they were written, and no
input is left among them.

What one run leaves is its footprint, so a row that is there at the end goes back to one run.  The
rest is about that run alone.  Its input was found on the tree when the compile was taken apart,
and recording the inputs before it has made nothing but files, so what is resolved when the row is
written lies where the input was found, and it is a file there.

* `PutAmong.exists_file`: what lies at the path that is recorded;
* `IsWellKept`, `Wrote.isWellKept`: the cells of a row that a run has written;
* `History`: a database over its whole life;
* `rows_of_history`: all rows at all times.
-/

namespace CompileJournal

variable {w w' : World} {s : Store} {c : Connection} {i : Invocation} {rows : Table} {row : Row}
  {p q : Place}

/-! ## 1. The file of a row -/

/-- A regular file at a place, below directories all the way from the root. -/
structure World.HasFileAt (w : World) (q : Place) : Prop where
  file : ∃ n, w.disk.entryAt q = some (.file n)
  above : ∀ x, x <:+ q → x ≠ q → w.disk.entryAt x = some .directory

theorem World.hasFileAt_of_entry (hw : w.IsSound) {n : FileNumber}
    (hq : w.disk.entryAt q = some (.file n)) : w.HasFileAt q := by
  refine ⟨⟨n, hq⟩, fun x hx hne => ?_⟩
  by_contra hdir
  have hnone := hw.tree.nothing_below hdir hx (Ne.symm hne)
  rw [hq] at hnone
  exact absurd hnone (by simp)

/-- Work through a store puts nothing but files where a file was. -/
theorem Store.Works.file_of_file {c' : Connection} (h : s.Works w c w' c') (ho : s.IsOpen w c)
    {n : FileNumber} (hq : w.disk.entryAt q = some (.file n)) {e : Entry}
    (he : w'.disk.entryAt q = some e) : ∃ m, e = .file m := by
  by_cases hbeside : c.handle.IsBeside q
  · obtain ⟨y, hfree, hy⟩ := World.exists_free ho.starts.sound ho.starts.hosts hbeside
    by_contra hne
    have hsame := h.disk.came hfree hy he (not_exists.mp hne)
    rw [hq] at hsame
    exact hne ⟨n, (Option.some.inj hsame).symm⟩
  · rw [h.disk.elsewhere hbeside, hq] at he
    exact ⟨n, (Option.some.inj he).symm⟩

/-- **What is recorded is the real path of a file**, which is there when its row is put: the one
that the input led to when the inputs were found. -/
theorem PutAmong.exists_file {inputs before : List Text} {input file : Text}
    (hput : PutAmong s i w inputs before input file) (ho : s.IsOpen w c)
    (hrows : w.table? c.handle = some rows) (hlinks : w.disk.HasShortLinks)
    (hbase : Path.isAbsolute i.workdir = true) {n : FileNumber}
    (hfind : w.find (Path.join i.workdir input) = .ok ⟨q, 0⟩)
    (hq : w.disk.entryAt q = some (.file n)) :
    file = q.text ∧ (record s i w before).world.HasFileAt q := by
  obtain ⟨files, hearlier⟩ := hput.earlier
  obtain ⟨c', heach⟩ := record_ok ho hearlier
  obtain ⟨_, _, hworks, -, -, -⟩ := record_works (i := i) ho hrows before
  have hresolved := hput.resolved
  generalize (record s i w before).world = v at hresolved heach hworks ⊢
  have hv : v.IsSound := heach.isOpen.starts.sound
  have habs := Path.isAbsolute_join hbase input
  have hexists : w.exists? (Path.join i.workdir input) = true := by
    rw [World.exists?, hfind]
    rfl
  have hbefore := World.resolve_eq heach.cwd heach.links hexists hresolved
  have hfile : file = q.text :=
    Except.ok.inj (hbefore.symm.trans (World.resolve_text hlinks hbase hfind))
  -- The path still leads somewhere, and by its real form it can only be the same place.
  obtain ⟨⟨q', lost⟩, hfind'⟩ := World.find_of_resolve hresolved
  obtain rfl : lost = 0 := World.find_lost (.inl habs) hfind'
  obtain ⟨e, he, -⟩ := World.exists_of_find hv habs hfind'
  have hlinks' : v.disk.HasShortLinks := fun hx => hlinks (hworks.disk.link hx)
  have htext : q'.text = q.text := by
    rw [World.resolve_text hlinks' hbase hfind', hfile] at hresolved
    exact Except.ok.inj hresolved
  obtain rfl := text_inj (hv.tree.clean he) (ho.starts.sound.tree.clean hq) htext
  obtain ⟨m, rfl⟩ := hworks.file_of_file ho hq he
  exact ⟨hfile, World.hasFileAt_of_entry hv he⟩

namespace CommandLine

variable {tokens : List Text} {v : World} {runs : List Run}

/-! ## 2. The cells of a row -/

/-- The cells of a row that a run wrote when `v` was the world.  The file is an absolute path
without empty names and without `.` and `..`, and it was that of a regular file which is reached
through directories alone.  The working directory is absolute.  The flags are the words of their
cell, written as it writes them, and hold no input on the tree and with the value flags of the
run. -/
structure Recording.IsWellKept (r : Recording w tokens) (row : Row) (v : World) : Prop where
  absolute : Path.isAbsolute row.file = true
  ordinary : ∀ name ∈ (Path.pieces row.file).tail, Disk.IsOrdinary name
  file : ∃ q : Place, row.file = q.text ∧ v.HasFileAt q
  workdir : Path.isAbsolute row.workdir = true
  flags : ∃ ts, Words.decode row.line = .ok ts ∧ Words.encode ts = row.line ∧
    classify r.opened r.valueFlags row.workdir ts = ⟨ts, []⟩

/-- **A row that a run has written is well kept.** -/
theorem Recording.Wrote.isWellKept {r : Recording w tokens} (h : r.Wrote p row v)
    (hw : w.IsSound) (hlinks : w.disk.HasShortLinks) : r.IsWellKept row v := by
  obtain ⟨before, input, rfl, hput⟩ := h.put
  have hcwd : Path.isAbsolute r.cwd = true := by
    rw [← (cwd_of_currentDirectory r.directory).2]
    exact isAbsolute_text _
  have harrives := Store.openAt_arrives hw (r.settings.databasePath w) r.settings.timeout
  rw [r.opens] at harrives
  rcases harrives with ⟨e, he, -⟩ | ⟨c, ha, hopens⟩
  · exact absurd he (by simp)
  obtain ⟨ho, rows, hrows⟩ := hopens r.store rfl
  obtain ⟨q, n, hfind, hq⟩ :=
    find_of_mem_inputs (hput.inputs.subset (List.mem_append_right before List.mem_cons_self))
  obtain ⟨hfile, hthere⟩ := hput.exists_file ho hrows (fun hx => hlinks (ha.later.link hx)) hcwd
    hfind hq
  have hclean := ha.later.sound.tree.clean hq
  have hne : q ≠ [] := by
    rintro rfl
    exact absurd hq (by simp)
  constructor
  case absolute =>
    rw [hfile]
    exact isAbsolute_text q
  case ordinary =>
    rw [hfile, pieces_text hne fun m hm => (hclean m hm).no_slash, List.tail_cons]
    intro name hname
    have hname := hclean name (List.mem_reverse.mp hname)
    exact ⟨hname.ne_nil, hname.ne_here, hname.ne_above⟩
  case file => exact ⟨q, hfile, hthere⟩
  case workdir =>
    rw [h.row]
    exact hcwd
  case flags =>
    rw [h.row]
    exact ⟨r.parts.flags, Words.decode_encode _, rfl, classifyWith_flags r.arguments⟩

/-! ## 3. Histories -/

/-- A run, with the place where the database lay that is looked at. -/
structure Run where
  database : Place
  world : World
  tokens : List Text
  refusal : Option Errno

/-- A database over its whole life: at first there is none, and then any runs follow each other,
the last one first in the list.  Between two of them the world may change in every way, as long as
the rows that a database has then were those of the database before, wherever it lies now. -/
inductive History : Place → List Run → World → Prop
  | absent {p : Place} {w : World} (hw : w.IsSound) (hlinks : w.disk.HasShortLinks)
      (hnone : w.tableAt p = none) : History p [] w
  | change {p p' : Place} {runs : List Run} {w w' : World} (earlier : History p runs w)
      (hw' : w'.IsSound) (hlinks : w'.disk.HasShortLinks)
      (hrows : ∀ rows, w'.tableAt p' = some rows → w.tableAt p = some rows) : History p' runs w'
  | run {p : Place} {runs : List Run} {w : World} (earlier : History p runs w)
      (tokens : List Text) (refusal : Option Errno) :
      History p (⟨p, w, tokens, refusal⟩ :: runs) (run w tokens refusal).1

/-- A row that goes back to one of the runs, and is as that run has left it. -/
def IsKeptFrom (runs : List Run) (row : Row) : Prop :=
  ∃ r ∈ runs, ∃ (recording : Recording r.world r.tokens) (v : World),
    recording.Wrote r.database row v ∧ recording.IsWellKept row v

/-- The rows at the place of the database are in order, and each of them goes back to a run. -/
theorem History.keeps (h : History p runs w) :
    w.IsSound ∧ w.disk.HasShortLinks ∧ ∀ rows, w.tableAt p = some rows →
      Table.IsSorted rows ∧ ∀ row ∈ rows, IsKeptFrom runs row := by
  induction h with
  | absent hw hlinks hnone =>
    refine ⟨hw, hlinks, fun rows hrows => ?_⟩
    rw [hnone] at hrows
    exact absurd hrows (by simp)
  | change _ hw' hlinks hrows ih =>
    obtain ⟨-, -, hkept⟩ := ih
    exact ⟨hw', hlinks, fun rows hrows' => hkept rows (hrows rows hrows')⟩
  | @run p runs w _ tokens refusal ih =>
    obtain ⟨hw, hlinks, hkept⟩ := ih
    have hrun := run_footprint hw tokens refusal
    refine ⟨hrun.later.sound, fun hx => hlinks (hrun.later.link hx), fun rows hrows => ?_⟩
    have hbefore : Table.IsSorted ((w.tableAt p).getD []) ∧
        ∀ row ∈ (w.tableAt p).getD [], IsKeptFrom runs row := by
      cases htable : w.tableAt p with
      | none => exact ⟨Table.isSorted_nil, by simp⟩
      | some rows => exact hkept rows htable
    refine ⟨hrun.sorted hrows hbefore.1, fun row hrow => ?_⟩
    rcases hrun.rows hrows hrow with hrow | ⟨recording, v, hwrote⟩
    · obtain ⟨r, hr, hwritten⟩ := hbefore.2 row hrow
      exact ⟨r, List.mem_cons_of_mem _ hr, hwritten⟩
    · exact ⟨_, List.mem_cons_self, recording, v, hwrote, hwrote.isWellKept hw hlinks⟩

/-- The world after the compile of `mainTokens`, with the database moved. -/
def movedWorld : World :=
  { recordedWorld with
    disk := (recordedWorld.disk.remove ["x.db".toList]).set ["y.db".toList] (.file 1) }

/-- Another compile of the source file, recorded where the database lies now. -/
def movedTokens : List Text := ["--db=/y.db", "--", "gcc", "-o", "main.o", "main.c"]

/-- The runs before and after the move. -/
def movedRuns : List Run :=
  [⟨["y.db".toList], movedWorld, movedTokens, none⟩,
    ⟨["x.db".toList], mainWorld, mainTokens, none⟩]

/-- **Every row of a database tells of a compile that took place.**  After any runs, with the world
changing between them, the rows have different files, and each of them was written by one of the
runs: for an input of its compile, when the file was there under that path and behind no link, and
with flags that can be read back and hold no input. -/
theorem rows_of_history (h : History p runs w) (hrows : w.tableAt p = some rows) :
    (rows.map Row.file).Nodup ∧
      ∀ row ∈ rows, ∃ r ∈ runs, ∃ (recording : Recording r.world r.tokens) (v : World),
        recording.Wrote r.database row v ∧ recording.IsWellKept row v := by
  obtain ⟨-, -, hkept⟩ := h.keeps
  obtain ⟨hsorted, hwritten⟩ := hkept rows hrows
  refine ⟨?_, hwritten⟩
  rw [List.Nodup, List.pairwise_map]
  exact hsorted.imp fun hlt heq => absurd (heq ▸ hlt) (lt_irrefl _)

/-- A compile that is recorded, and recorded again after the database was moved. -/
theorem rows_of_history_movedWorld :
    (History ["y.db"] movedRuns (run movedWorld movedTokens none).1 ∧
      (run movedWorld movedTokens none).1.tableAt ["y.db"] =
        some [⟨"/main.c", "gcc", "-o main.o", "/"⟩]) ∧
    ∃ r ∈ movedRuns, ∃ (recording : Recording r.world r.tokens) (v : World),
      recording.Wrote r.database ⟨"/main.c", "gcc", "-o main.o", "/"⟩ v ∧
        recording.IsWellKept ⟨"/main.c", "gcc", "-o main.o", "/"⟩ v := by
  have hmain : HasShortPaths mainWorld := hasShortPaths_of_entries (by decide)
  have habsent : History ["x.db"] [] mainWorld :=
    .absent mainWorld_isSound hmain.links (by decide)
  have hmoved : movedWorld.tableAt ["y.db"] = recordedWorld.tableAt ["x.db"] := by
    decide +kernel
  have hrecorded : History ["x.db"] [⟨["x.db"], mainWorld, mainTokens, none⟩] recordedWorld :=
    habsent.run mainTokens none
  have hsound : movedWorld.IsSound :=
    ⟨Disk.isTree_of_entries (by decide +kernel) (by decide +kernel), by decide +kernel⟩
  have hshort : HasShortPaths movedWorld := hasShortPaths_of_entries (by decide +kernel)
  have hchange : History ["y.db"] [⟨["x.db"], mainWorld, mainTokens, none⟩] movedWorld :=
    hrecorded.change hsound hshort.links fun rows hrows => by rw [← hmoved, hrows]
  have hhistory : History ["y.db"] movedRuns (run movedWorld movedTokens none).1 :=
    hchange.run movedTokens none
  have hrows : (run movedWorld movedTokens none).1.tableAt ["y.db"] =
      some [⟨"/main.c", "gcc", "-o main.o", "/"⟩] := by
    decide +kernel
  obtain ⟨-, hwritten⟩ := rows_of_history hhistory hrows
  exact ⟨⟨hhistory, hrows⟩, hwritten _ List.mem_cons_self⟩

end CommandLine

end CompileJournal
