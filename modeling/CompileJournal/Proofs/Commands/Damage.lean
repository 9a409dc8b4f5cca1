import CompileJournal.Proofs.Commands.Exporting
import CompileJournal.Proofs.Commands.Refusals
import CompileJournal.Proofs.Sessions.Failures

/-!
# Damaged rows

Other programs may put any text into the cell with the flags of a row, also one that is no sequence
of words.  Such a row is damaged: no record can be made of it.  A store decodes the cells only after
its statement has ended, so what a damaged row spoils is told from the rows alone.  A look-up
decodes one row and a listing all of them, in the order of the files, up to the first damaged one.

That needs a statement that ends well.  It does if nobody holds the database and nothing lies where
its undo file and its log go, which is all that is asked here.

* `Table.FirstDamage`, `Table.records_eq_error_iff`: the row at which a listing fails;
* `Store.HasToItself`: a store whose statements all end well;
* `HasToItself.shows`, `HasToItself.put_spec`: reading and recording;
* `Session.hasToItself_of_reaches`: the stores of the sessions that come about;
* `Store.Contains`, `damage_contained`: what damaged rows spoil, and what not.
-/

namespace CompileJournal

variable {w v : World} {s : Store} {c c' : Connection} {g : Handle} {rows rows' : Table} {row : Row}
  {d : Words.DecodeError}

/-! ## 1. The rows -/

/-- A row of which no record can be made, with what is wrong with the cell of its flags. -/
def Row.IsDamaged (row : Row) (d : Words.DecodeError) : Prop := Words.decode row.line = .error d

instance : Decidable (row.IsDamaged d) := inferInstanceAs (Decidable (_ = _))

theorem Row.record_eq_error : row.record = .error d ↔ row.IsDamaged d := by
  rw [record, map_eq_error]
  rfl

namespace Table

/-- What is wrong with the first damaged row. -/
def FirstDamage (rows : Table) (d : Words.DecodeError) : Prop :=
  ∃ before row after, rows = before ++ row :: after ∧
    (∀ other ∈ before, ∀ d', ¬other.IsDamaged d') ∧ row.IsDamaged d

theorem firstDamage_cons_of_damaged (h : row.IsDamaged d) (rest : Table) :
    FirstDamage (row :: rest) d :=
  ⟨[], row, rest, rfl, fun _ hmem => absurd hmem List.not_mem_nil, h⟩

/-- In front of a row that is not damaged, the first damaged row stays what it is. -/
theorem firstDamage_cons_iff (h : ∀ d', ¬row.IsDamaged d') {rest : Table} :
    FirstDamage (row :: rest) d ↔ FirstDamage rest d := by
  constructor
  · rintro ⟨before, damaged, after, heq, hbefore, hdamaged⟩
    cases before with
    | nil =>
      obtain ⟨rfl, -⟩ := List.cons.inj heq
      exact absurd hdamaged (h d)
    | cons first before =>
      obtain ⟨rfl, hrest⟩ := List.cons.inj heq
      exact ⟨before, damaged, after, hrest,
        fun other hmem => hbefore other (List.mem_cons_of_mem _ hmem), hdamaged⟩
  · rintro ⟨before, damaged, after, rfl, hbefore, hdamaged⟩
    refine ⟨row :: before, damaged, after, rfl, ?_, hdamaged⟩
    intro other hmem
    rcases List.mem_cons.mp hmem with rfl | hmem
    · exact h
    · exact hbefore other hmem

/-- There is a first damaged row if there is one at all. -/
theorem exists_firstDamage_iff :
    (∃ d, rows.FirstDamage d) ↔ ∃ row ∈ rows, ∃ d, row.IsDamaged d := by
  constructor
  · rintro ⟨d, before, row, after, rfl, -, hd⟩
    exact ⟨row, List.mem_append_right _ List.mem_cons_self, d, hd⟩
  · rintro ⟨row, hrow, d, hd⟩
    induction rows with
    | nil => exact absurd hrow List.not_mem_nil
    | cons first rest ih =>
      by_cases hfirst : ∃ d', first.IsDamaged d'
      · obtain ⟨d', hd'⟩ := hfirst
        exact ⟨d', firstDamage_cons_of_damaged hd' rest⟩
      · rw [not_exists] at hfirst
        rcases List.mem_cons.mp hrow with rfl | hrow
        · exact absurd hd (hfirst d)
        · obtain ⟨d', hd'⟩ := ih hrow
          exact ⟨d', (firstDamage_cons_iff hfirst).mpr hd'⟩

/-- **The records of a table fail at its first damaged row.** -/
theorem records_eq_error_iff : rows.records = .error d ↔ rows.FirstDamage d := by
  induction rows with
  | nil =>
    constructor
    · intro h
      exact absurd h (by simp [records, pure, Except.pure])
    · rintro ⟨before, damaged, after, heq, -⟩
      exact absurd heq (by simp)
  | cons row rest ih =>
    rw [records] at ih ⊢
    rw [List.mapM_cons]
    cases hrow : row.record with
    | error d' =>
      have hdamaged := Row.record_eq_error.mp hrow
      constructor
      · intro h
        obtain rfl : d' = d := Except.error.inj h
        exact firstDamage_cons_of_damaged hdamaged rest
      · rintro ⟨before, damaged, after, heq, hbefore, hd⟩
        cases before with
        | nil =>
          obtain ⟨rfl, -⟩ := List.cons.inj heq
          obtain rfl := Except.error.inj (hrow.symm.trans (Row.record_eq_error.mpr hd))
          rfl
        | cons first before =>
          obtain ⟨rfl, -⟩ := List.cons.inj heq
          exact absurd hdamaged (hbefore row List.mem_cons_self d')
    | ok r =>
      have hgood : ∀ d', ¬row.IsDamaged d' := by
        intro d' hdamaged
        rw [Row.record_eq_error.mpr hdamaged] at hrow
        exact absurd hrow (by simp)
      rw [firstDamage_cons_iff hgood, ← ih]
      cases rest.mapM Row.record with
      | ok rs => simp [bind, Except.bind, pure, Except.pure]
      | error d' => rfl

/-- Rows of other files stay when a row is put, and no others come. -/
theorem IsSorted.mem_put_iff (h : IsSorted rows) (r : Row) (hne : row.file ≠ r.file) :
    row ∈ rows.put r ↔ row ∈ rows := by
  have hbefore : rows.get? row.file = some row ↔ row ∈ rows ∧ row.file = row.file :=
    h.get?_eq_some
  have hafter : (rows.put r).get? row.file = some row ↔ row ∈ rows.put r ∧ row.file = row.file :=
    (h.put r).get?_eq_some
  rw [get?_put, if_neg (Ne.symm hne)] at hafter
  simpa using hafter.symm.trans hbefore

/-- The row of a file is known from the rows that have the file. -/
theorem IsSorted.get?_congr (h : IsSorted rows) (h' : IsSorted rows') {file : Text}
    (hsame : ∀ row, row.file = file → (row ∈ rows' ↔ row ∈ rows)) :
    rows'.get? file = rows.get? file := by
  apply Option.ext
  intro row
  rw [h.get?_eq_some, h'.get?_eq_some]
  constructor
  · rintro ⟨hmem, hfile⟩
    exact ⟨(hsame row hfile).mp hmem, hfile⟩
  · rintro ⟨hmem, hfile⟩
    exact ⟨(hsame row hfile).mpr hmem, hfile⟩

end Table

/-! ## 2. Stores that nobody disturbs -/

namespace Store

/-- A store that is open on a database with these rows, in which all its statements end well.  The
database lies where it was opened, with room for the name of its undo file; nothing lies where this
one and the log go; and nobody holds the database. -/
structure HasToItself (w : World) (s : Store) (g : Handle) (rows : Table) : Prop where
  sound : w.IsSound
  connection : ∃ c, s.connection? w = some c ∧ c.handle = g ∧ c.memory.Agrees (w.content g)
  hosts : w.Hosts g
  undo : ∀ {u}, g.undo = some u → w.disk.entryAt u = none
  log : ∀ {l}, g.log = some l → w.disk.entryAt l = none
  room : World.HasRoom g
  alone : w.isShared g.file = false
  table : w.table? g = some rows
  sorted : Table.IsSorted rows

/-- A store in an orderly world is undisturbed unless a transaction from outside uses its
database. -/
theorem hasToItself_of_isOn {D : Place → Prop} (ho : w.IsOrderly D) (hs : s.IsOn w g)
    (halone : w.IsLeftAlone g) (hrows : w.table? g = some rows) : s.HasToItself w g rows := by
  have hown := hs.owns ho
  have htidy := ho.isTidy hown
  obtain ⟨i, hi, htable⟩ := World.content_of_table hrows
  have hmade := hown.made i hi
  obtain ⟨c, hc, rfl⟩ := hs.connection
  exact {
    sound := ho.sound
    connection := ⟨c, hc, rfl, (ho.connection (mem_of_connection? hc)).2⟩
    hosts := hown.hosts
    undo := htidy.undo_none hi
    log := htidy.log
    room := hmade.room
    alone := ho.isShared_eq_false.mpr halone
    table := hrows
    sorted := hmade.sorted htable }

namespace HasToItself

theorem shares (h : s.HasToItself w g rows) (hc : s.connection? w = some c) :
    c.handle = g ∧ w.Shares c := by
  obtain ⟨c', hc', rfl, hagrees⟩ := h.connection
  obtain rfl := Option.some.inj (hc'.symm.trans hc)
  refine ⟨rfl, h.sound, h.hosts, ⟨?_, h.log⟩, hagrees⟩
  intro u e hu he
  rw [h.undo hu] at he
  exact absurd he (by simp)

theorem isClosedOff (h : s.HasToItself w g rows) : w.isClosedOff g.file = false := by
  by_contra hclosed
  rw [Bool.not_eq_false] at hclosed
  have hshared := World.isShared_of_isClaimed (World.isClaimed_of_isClosedOff hclosed)
  rw [h.alone] at hshared
  exact absurd hshared (by simp)

/-- Nothing denies its rows to a store that is undisturbed. -/
theorem not_denies (h : s.HasToItself w g rows) (hg : c.handle = g) {q : Query} {i : Image}
    (hi : w.content g = .database i) {f : DatabaseFault} : ¬World.Denies w c q i f := by
  subst hg
  intro hdenies
  have hopen := h.isClosedOff
  cases hdenies with
  | locked hclosed _ | blind hclosed _ =>
    rw [hopen] at hclosed
    exact absurd hclosed (by simp)
  | missing _ hnone =>
    have htable := h.table
    rw [World.table?, hi] at htable
    exact absurd (htable.symm.trans hnone) (by simp)

/-- The store with another connection, in a world in which only the content of the database may
have changed. -/
theorem after (h : s.HasToItself w g rows)
    (hbound : w.ChangesOnly (fun _ => False) (· = g.file) v) (hg : c'.handle = g)
    (hagrees : c'.memory.Agrees (v.content g)) (htable : v.table? g = some rows')
    (hsorted : Table.IsSorted rows') :
    s.HasToItself (s.setConnection v (some c')) g rows' := by
  obtain ⟨c, hc, -, -⟩ := h.connection
  have hsound := hbound.sound h.sound
  have hhosts := h.hosts.elsewhere hbound.disk fun _ h => h
  refine {
    sound := ⟨hsound.tree, hsound.cwd⟩
    connection := ⟨c', connection?_setConnection hc hbound.connections _, hg, hagrees⟩
    hosts := ⟨hhosts.number, hhosts.place⟩
    undo := ?_
    log := ?_
    room := h.room
    alone := ?_
    table := htable
    sorted := hsorted }
  · intro u hu
    exact (hbound.disk.elsewhere id).trans (h.undo hu)
  · intro l hl
    exact (hbound.disk.elsewhere id).trans (h.log hl)
  · have halone := h.alone
    rw [World.isShared, Bool.or_eq_false_iff] at halone ⊢
    constructor
    · rw [← hbound.locks] at halone
      exact halone.1
    · -- The new connection uses no log, as little as the others on the file.
      rw [List.any_eq_false]
      intro d hd
      rcases List.mem_or_eq_of_mem_set hd with hd | rfl
      · rw [hbound.connections] at hd
        exact List.any_eq_false.mp halone.2 d hd
      · simp [hagrees.isLogging]

/-- Reading gives the rows, and the store goes on with another connection. -/
theorem read (h : s.HasToItself w g rows) (q : Query) :
    (s.use w fun w c => w.readRows c q).2 = .ok rows ∧
      s.HasToItself (s.use w fun w c => w.readRows c q).1 g rows ∧
      ∃ cs, (s.use w fun w c => w.readRows c q).1 = { w with connections := cs } := by
  obtain ⟨c, hc, hg, -⟩ := h.connection
  obtain ⟨-, hshares⟩ := h.shares hc
  obtain ⟨i, hi, htable⟩ := World.content_of_table h.table
  obtain ⟨hrests, hresult⟩ := World.readRows_image hshares (hg ▸ hi) q
  rw [use_eq hc]
  refine ⟨?_, ?_, ?_⟩
  · cases hread : (w.readRows c q).result with
    | ok rows' =>
      rw [hread] at hresult
      rw [Option.some.inj (hresult.2.symm.trans htable)]
      rfl
    | error f =>
      rw [hread] at hresult
      exact absurd hresult (h.not_denies hg hi)
  · have hagrees : (w.readRows c q).connection.memory.Agrees
        ((w.readRows c q).world.content g) := by
      rw [hrests.world, ← hg]
      exact hrests.agrees
    refine h.after ?_ (hrests.handle.trans hg) hagrees ?_ h.sorted
    · rw [hrests.world]
      exact .refl h.sound
    · rw [hrests.world]
      exact h.table
  · rw [hrests.world]
    exact ⟨_, rfl⟩

theorem shows (h : s.HasToItself w g rows) : s.Shows w rows :=
  ⟨fun q => (h.read q).1, h.sorted⟩

/-- **Recording puts the row**, whatever the rows are, and the store goes on. -/
theorem put_spec (h : s.HasToItself w g rows) (r : Record) :
    (s.put w r).2 = .ok () ∧
      s.HasToItself (s.put w r).1 g (rows.put (Row.ofRecord r)) := by
  obtain ⟨c, hc, hg, -⟩ := h.connection
  obtain ⟨-, hshares⟩ := h.shares hc
  obtain ⟨i, hi, htable⟩ := World.content_of_table h.table
  obtain ⟨hattempts, haccepts, hput⟩ :=
    World.putRow_image hshares (hg ▸ hi) (hg ▸ h.room) (Row.ofRecord r)
  have hok : (w.putRow c (Row.ofRecord r)).result = .ok () := by
    cases hresult : (w.putRow c (Row.ofRecord r)).result with
    | ok u => rfl
    | error f =>
      rw [hresult] at haccepts
      cases haccepts with
      | denied hdenies => exact absurd hdenies (h.not_denies hg hi)
      | refused _ hshared _ =>
        rw [hg, h.alone] at hshared
        exact absurd hshared (by simp)
  obtain ⟨j, ⟨rows', hrows', rfl⟩, hcontent⟩ := hput hok
  obtain rfl := Option.some.inj (hrows'.symm.trans htable)
  rw [put, use_eq hc, hok]
  refine ⟨rfl, h.after (hg ▸ hattempts.revises.bound) (hattempts.handle.trans hg)
    (hg ▸ hattempts.agrees) ?_ (h.sorted.put _)⟩
  rw [World.table?, ← hg, hcontent]
  rfl

end HasToItself

/-! ## 3. Look-ups and listings -/

/-- A look-up in rows fails exactly if the row of the file is damaged. -/
theorem recordIn_eq_error (hsorted : Table.IsSorted rows) (file : Text) (e : Failure) :
    recordIn file rows = .error e ↔
      ∃ row ∈ rows, row.file = file ∧ ∃ d, row.IsDamaged d ∧ e = .undecodable d := by
  constructor
  · intro h
    unfold recordIn at h
    cases hrow : rows.get? file with
    | none =>
      rw [hrow] at h
      exact absurd h (by simp)
    | some row =>
      rw [hrow] at h
      obtain ⟨d, hd, rfl⟩ := mapError_eq_error.mp (map_eq_error.mp h)
      obtain ⟨hmem, hfile⟩ := hsorted.get?_eq_some.mp hrow
      exact ⟨row, hmem, hfile, d, Row.record_eq_error.mp hd, rfl⟩
  · rintro ⟨row, hmem, hfile, d, hd, rfl⟩
    rw [recordIn, hsorted.get?_eq_some.mpr ⟨hmem, hfile⟩]
    simp only [Row.record_eq_error.mpr hd]
    rfl

end Store

/-- A path at which a text can be written. -/
def World.CanWrite (w : World) (path : Text) : Prop := ∃ opened, w.openForWriting path = .ok opened

/-- Whether a path can be written does not depend on the connections. -/
theorem World.openForWriting_withConnections (w : World) (cs : List (Option Connection))
    (path : Text) : openForWriting { w with connections := cs } path =
      (w.openForWriting path).map fun opened =>
        ({ opened.1 with connections := cs }, opened.2) := by
  have hstart : start { w with connections := cs } path = w.start path := rfl
  unfold openForWriting
  rw [hstart]
  split
  · rfl
  cases w.start path with
  | error e => rfl
  | ok start =>
  simp only
  split
  · rfl
  cases w.disk.walk .create Disk.maxLinks start.1.place start.2 with
  | error e => rfl
  | ok landing =>
  cases landing with
  | absent p => rfl
  | present p =>
    simp only
    cases w.disk.entryAt p with
    | none => rfl
    | some e => cases e <;> rfl

theorem World.CanWrite.writeText {path : Text} (h : w.CanWrite path) (t : Text) :
    ∃ w', w.writeText path t = .ok w' := by
  obtain ⟨⟨v, n?⟩, hopen⟩ := h
  cases n? with
  | none => exact ⟨v, by rw [World.writeText, hopen]⟩
  | some n => exact ⟨_, by rw [World.writeText, hopen]⟩

/-- Where the output can be opened, an export ends as the listing of the entries does. -/
theorem exportTo_result {path : Text} (hopen : (entries w s).1.CanWrite path) :
    (exportTo w s path).result = (entries w s).2.map List.length := by
  unfold exportTo
  cases hentries : entries w s with
  | mk v result =>
  cases result with
  | error e => rfl
  | ok es =>
    rw [hentries] at hopen
    obtain ⟨w', hwrite⟩ := hopen.writeText (CompileEntry.renderAll es)
    simp only [hwrite]
    rfl

/-- A replay hands on what the look-up of its file fails with. -/
theorem replay_eq_undecodable {cwd input file : Text} (hfile : w.resolve cwd input = .ok file)
    (o : Overrides) (d : Words.DecodeError) :
    (replay w s cwd input o).result = .error (.undecodable d) ↔
      (s.get w file).2 = .error (.undecodable d) := by
  unfold replay
  rw [hfile]
  simp only
  cases s.get w file with
  | mk v answer =>
  cases answer with
  | error e => simp
  | ok r? => cases r? <;> simp

namespace Store

/-- What damaged rows spoil for a store that has its database to itself, and what not. -/
structure Contains (w : World) (s : Store) (g : Handle) (rows : Table) : Prop where
  /-- A look-up fails exactly if the row of its file is damaged. -/
  get : ∀ file e, (s.get w file).2 = .error e ↔
    ∃ row ∈ rows, row.file = file ∧ ∃ d, row.IsDamaged d ∧ e = .undecodable d
  /-- Any other store with the same row for the file gives the same answer. -/
  apart : ∀ {w' : World} {s' : Store} {g' rows'}, s'.HasToItself w' g' rows' → ∀ file,
    (∀ row, row.file = file → (row ∈ rows' ↔ row ∈ rows)) → (s'.get w' file).2 = (s.get w file).2
  /-- There is a first damaged row exactly if some row is damaged. -/
  damaged : (∃ d, rows.FirstDamage d) ↔ ∃ row ∈ rows, ∃ d, row.IsDamaged d
  /-- A listing fails exactly then, with what is wrong with the first damaged row. -/
  records : ∀ e, (s.records w).2 = .error e ↔ ∃ d, rows.FirstDamage d ∧ e = .undecodable d
  entries : ∀ e, (CompileJournal.entries w s).2 = .error e ↔
    ∃ d, rows.FirstDamage d ∧ e = .undecodable d
  exported : ∀ path, w.CanWrite path → ∀ e, (exportTo w s path).result = .error e ↔
    ∃ d, rows.FirstDamage d ∧ e = .undecodable d
  /-- Otherwise it has all rows, one after the other. -/
  lists : (∀ d, ¬rows.FirstDamage d) →
    ∃ rs, List.Forall₂ (fun row r => row.record = .ok r) rows rs ∧ (s.records w).2 = .ok rs ∧
      (CompileJournal.entries w s).2 = .ok (rs.map CompileEntry.ofRecord) ∧
      ∀ path, w.CanWrite path → ∃ w', (CompileJournal.entries w s).1.writeText path
          (CompileEntry.renderAll (rs.map CompileEntry.ofRecord)) = .ok w' ∧
        exportTo w s path = ⟨w', [.wrote rows.length path], .ok rows.length⟩
  /-- A replay meets a damaged row exactly if the look-up of its file does. -/
  replay : ∀ {cwd input file}, w.resolve cwd input = .ok file → ∀ o d,
    (CompileJournal.replay w s cwd input o).result = .error (.undecodable d) ↔
      (s.get w file).2 = .error (.undecodable d)
  /-- A row is put in place of any other one, also of one that is damaged. -/
  put : ∀ r, (s.put w r).2 = .ok () ∧
    s.HasToItself (s.put w r).1 g (rows.put (Row.ofRecord r)) ∧
    (s.get (s.put w r).1 r.file).2 = .ok (some r) ∧
    ∀ row, row.file ≠ r.file → (row ∈ rows.put (Row.ofRecord r) ↔ row ∈ rows)
  /-- Reading leaves the store as it is, whether or not it fails. -/
  keeps : (∀ file, s.HasToItself (s.get w file).1 g rows) ∧ s.HasToItself (s.records w).1 g rows

namespace HasToItself

theorem get (h : s.HasToItself w g rows) (file : Text) :
    (s.get w file).2 = recordIn file rows :=
  h.shows.get file

theorem records_eq_error (h : s.HasToItself w g rows) (e : Failure) :
    (s.records w).2 = .error e ↔ ∃ d, rows.FirstDamage d ∧ e = .undecodable d := by
  rw [h.shows.records, mapError_eq_error]
  constructor
  · rintro ⟨d, hd, rfl⟩
    exact ⟨d, Table.records_eq_error_iff.mp hd, rfl⟩
  · rintro ⟨d, hd, rfl⟩
    exact ⟨d, Table.records_eq_error_iff.mpr hd, rfl⟩

theorem entries_eq_error (h : s.HasToItself w g rows) (e : Failure) :
    (entries w s).2 = .error e ↔ ∃ d, rows.FirstDamage d ∧ e = .undecodable d := by
  rw [← h.records_eq_error]
  exact map_eq_error

theorem canWrite_entries (h : s.HasToItself w g rows) {path : Text} (hopen : w.CanWrite path) :
    (entries w s).1.CanWrite path := by
  obtain ⟨-, -, cs, hcs⟩ := h.read .list
  obtain ⟨opened, hopened⟩ := hopen
  have hworld : (entries w s).1 = { w with connections := cs } :=
    (records_world w s).trans hcs
  rw [hworld, World.CanWrite, World.openForWriting_withConnections, hopened]
  exact ⟨_, rfl⟩

/-- The listing of rows none of which is damaged. -/
theorem lists (h : s.HasToItself w g rows) (hnone : ∀ d, ¬rows.FirstDamage d) :
    ∃ rs, List.Forall₂ (fun row r => row.record = .ok r) rows rs ∧ (s.records w).2 = .ok rs ∧
      (entries w s).2 = .ok (rs.map CompileEntry.ofRecord) ∧
      ∀ path, w.CanWrite path → ∃ w', (entries w s).1.writeText path
          (CompileEntry.renderAll (rs.map CompileEntry.ofRecord)) = .ok w' ∧
        exportTo w s path = ⟨w', [.wrote rows.length path], .ok rows.length⟩ := by
  obtain ⟨rs, hrs⟩ : ∃ rs, rows.records = .ok rs := by
    cases hrows : rows.records with
    | ok rs => exact ⟨rs, rfl⟩
    | error d => exact absurd (Table.records_eq_error_iff.mp hrows) (hnone d)
  have hentries : (entries w s).2 = .ok (rs.map CompileEntry.ofRecord) :=
    entries_of_shows h.shows hrs
  refine ⟨rs, Table.records_eq_ok.mp hrs, ?_, hentries, ?_⟩
  · rw [h.shows.records, hrs]
    rfl
  · intro path hopen
    obtain ⟨w', hwrite⟩ := (h.canWrite_entries hopen).writeText
      (CompileEntry.renderAll (rs.map CompileEntry.ofRecord))
    have hlength : (rs.map CompileEntry.ofRecord).length = rows.length := by
      have hfiles := Table.files_of_records (Table.records_eq_ok.mp hrs)
      simpa using congrArg List.length hfiles
    refine ⟨w', hwrite, ?_⟩
    have hpair : entries w s = ((entries w s).1, .ok (rs.map CompileEntry.ofRecord)) :=
      Prod.ext rfl hentries
    rw [exportTo, hpair]
    simp only [hwrite, hlength]

theorem contains (h : s.HasToItself w g rows) : s.Contains w g rows where
  get file e := by
    rw [h.get]
    exact recordIn_eq_error h.sorted file e
  apart := by
    intro w' s' g' rows' h' file hsame
    rw [h.get, h'.get, recordIn, recordIn, h.sorted.get?_congr h'.sorted hsame]
  damaged := Table.exists_firstDamage_iff
  records := h.records_eq_error
  entries := h.entries_eq_error
  exported := by
    intro path hopen e
    rw [exportTo_result (h.canWrite_entries hopen), map_eq_error]
    exact h.entries_eq_error e
  lists := h.lists
  replay := replay_eq_undecodable
  put := by
    intro r
    obtain ⟨hok, hafter⟩ := h.put_spec r
    refine ⟨hok, hafter, ?_, ?_⟩
    · have hrow : (rows.put (Row.ofRecord r)).get? r.file = some (Row.ofRecord r) := by
        rw [Table.get?_put]
        exact if_pos rfl
      rw [hafter.get, recordIn, hrow]
      simp only [Row.record_ofRecord]
      rfl
    · intro row hne
      exact h.sorted.mem_put_iff (Row.ofRecord r) hne
  keeps := by
    constructor
    · intro file
      rw [get_world]
      exact (h.read .get).2.1
    · rw [records_world]
      exact (h.read .list).2.1

end HasToItself

end Store

/-! ## 4. Stores that have their database to themselves -/

/-- A root with a database of given rows, on which a store is open. -/
def World.holding (rows : Table) : World :=
  { World.written [(["x.db"], .file 0)] [.database ⟨1, 1, some rows⟩] with
    connections := [some ⟨⟨0, some ["x.db"]⟩, {}⟩] }

theorem World.holding_isSound (rows : Table) : (holding rows).IsSound := by
  -- The rows have no part in what a tree is.
  have hplace : ∀ e ∈ (holding []).disk.entries, Disk.IsName (e.1.2.headD []) ∧
      (holding []).disk.entryAt e.1.2.tail = some .directory := by
    decide
  have hfits : ∀ e ∈ (holding []).disk.entries, (holding []).disk.Fits e.1.2 e.2 := by decide
  exact ⟨Disk.isTree_of_entries hplace hfits, rfl⟩

/-- Any rows in their order can be those of a store. -/
theorem Store.hasToItself_holding (hsorted : Table.IsSorted rows) :
    Store.HasToItself (World.holding rows) ⟨"/x.db", .finite false 5 0, 0⟩ ⟨0, some ["x.db"]⟩
      rows where
  sound := World.holding_isSound rows
  connection := ⟨_, rfl, rfl, Memory.agrees_empty _⟩
  hosts := ⟨Nat.zero_lt_one, by rintro p ⟨⟩; rfl⟩
  undo := by
    intro u hu
    obtain rfl := Option.some.inj hu
    exact (by decide :
      (World.holding []).disk.entryAt ["x.db".toList ++ "-journal".toList] = none)
  log := by
    intro l hl
    obtain rfl := Option.some.inj hl
    exact (by decide : (World.holding []).disk.entryAt ["x.db".toList ++ "-wal".toList] = none)
  room := by
    intro u hu
    obtain rfl := Option.some.inj hu
    decide
  alone := rfl
  table := rfl
  sorted := hsorted

namespace Session

/-- **In every session that comes about, a store that is open has its database to itself** unless a
transaction from outside uses it, whatever rows have been put into it and by whom. -/
theorem hasToItself_of_reaches {D : Place → Prop} {t t' : Session} {name : Text}
    (hb : Begins D t) (hr : Reaches D t t') (hs : t'.store? name = some s)
    (hc : s.connection? t'.world = some c) (halone : t'.world.IsLeftAlone c.handle)
    (hrows : t'.world.table? c.handle = some rows) :
    s.HasToItself t'.world c.handle rows := by
  have ho := hr.isOrderly hb
  exact Store.hasToItself_of_isOn ho.world (ho.isOn hs hc) halone hrows

/-- A store at an empty root, into whose database another program has put two rows, a damaged one in
front of one that is not. -/
def damagedRoot : Session :=
  ((emptyRoot.step (.openStore "s" "/x.db" (.finite false 5 0))).1.outside
    (.put "/x.db" ⟨"/b.c", "cc", "-c", "/"⟩)).outside (.put "/x.db" ⟨"/a.c", "cc", "'", "/"⟩)

/-- The rows of the database. -/
def damagedRows : Table := [⟨"/a.c", "cc", "'", "/"⟩, ⟨"/b.c", "cc", "-c", "/"⟩]

/-- The store that is open. -/
def damagedStore : Store := ⟨"/x.db", .finite false 5 0, 0⟩

/-- The database on which it is open. -/
def damagedHandle : Handle := ⟨0, some ["x.db"]⟩

theorem damagedRoot_reached : Reaches (· = (["x.db"] : Place)) emptyRoot damagedRoot :=
  .outside (.outside (.step .refl (.openStore "s" "/x.db" (.finite false 5 0)) emptyRoot_opensInto)
    (.put "/x.db" ⟨"/b.c", "cc", "-c", "/"⟩) (World.leadsInto_of_place (by decide)))
    (.put "/x.db" ⟨"/a.c", "cc", "'", "/"⟩) (World.leadsInto_of_place (by decide))

/-- Another store has made a directory where the undo file of the database goes. -/
def crowdedDamage : Session :=
  (damagedRoot.step (.openStore "t" "/x.db-journal/y.db" (.finite false 5 0))).1

end Session

/-! ## 5. The theorem -/

/-- **A damaged row stays contained.**  If a store has its database to itself, look-ups fail exactly
for the files whose rows are damaged, listings and exports exactly if there is a damaged row, with
what is wrong with the first one, and replays exactly if the look-up of their file does.  A damaged
row can be replaced, and no other row has a part in that.  A store that is open in a session has its
database to itself unless a transaction from outside uses it, and it may hold any rows. -/
theorem damage_contained :
    (∀ {w : World} {s : Store} {g rows}, s.HasToItself w g rows → s.Contains w g rows) ∧
    (∀ {D : Place → Prop} {t t' : Session} {name : Text} {s : Store} {c rows},
      Session.Begins D t → Session.Reaches D t t' → t'.store? name = some s →
      s.connection? t'.world = some c → t'.world.IsLeftAlone c.handle →
      t'.world.table? c.handle = some rows → s.HasToItself t'.world c.handle rows) ∧
    ∀ {rows}, Table.IsSorted rows → ∃ (w : World) (s : Store) (g : Handle),
      s.HasToItself w g rows := by
  refine ⟨Store.HasToItself.contains, Session.hasToItself_of_reaches, ?_⟩
  intro rows hsorted
  exact ⟨_, _, _, Store.hasToItself_holding hsorted⟩

/-- The damaged row makes the listing fail, the row behind it is still found, and the damaged one
can be replaced. -/
theorem damage_contained_damagedRoot :
    Session.damagedStore.HasToItself Session.damagedRoot.world Session.damagedHandle
      Session.damagedRows ∧
    (Session.damagedStore.records Session.damagedRoot.world).2 =
      .error (.undecodable .noClosingQuotation) ∧
    (∀ e, (Session.damagedStore.get Session.damagedRoot.world "/b.c").2 ≠ .error e) ∧
    (Session.damagedStore.put Session.damagedRoot.world ⟨"/a.c", "cc", [], "/"⟩).2 = .ok () := by
  obtain ⟨hall, hsessions, -⟩ := damage_contained
  have hopen : (Session.damagedStore.connection? Session.damagedRoot.world).map (·.handle) =
      some Session.damagedHandle := by
    decide
  have hstore : Session.damagedRoot.store? "s" = some Session.damagedStore := by decide
  have halone : Session.damagedRoot.world.IsLeftAlone Session.damagedHandle := by
    unfold World.IsLeftAlone
    decide
  have hrows : Session.damagedRoot.world.table? Session.damagedHandle =
      some Session.damagedRows := by
    decide
  obtain ⟨c, hc, hhandle⟩ := Option.map_eq_some_iff.mp hopen
  have hself := hsessions Session.emptyRoot_begins Session.damagedRoot_reached hstore hc
    (hhandle ▸ halone) (hhandle ▸ hrows)
  rw [hhandle] at hself
  have hcontains := hall hself
  refine ⟨hself, (hcontains.records _).mpr ⟨.noClosingQuotation, ?_, rfl⟩, ?_,
    (hcontains.put _).1⟩
  · exact Table.firstDamage_cons_of_damaged (by decide) _
  · intro e he
    obtain ⟨row, hrow, hfile, d, hdamaged, -⟩ := (hcontains.get _ _).mp he
    rcases List.mem_cons.mp hrow with rfl | hrow
    · exact absurd hfile (by decide)
    · obtain rfl := List.mem_singleton.mp hrow
      have hgood : Words.decode "-c" = .ok ["-c".toList] := by decide
      exact absurd (hgood.symm.trans hdamaged) (by simp)

/-- **Not every damaged row stays contained.**  With no lock held, a directory that another store
has made where the undo file goes keeps the store from its rows: it fails for another reason where
it should meet the damaged row, and it cannot replace that one. -/
theorem not_damage_contained :
    ¬∀ (steps : List StoreStep) {t : Session} {s : Store} {c rows row d},
      t = steps.foldl (fun t x => (t.step x).1) Session.damagedRoot → t.world.locks = [] →
      s.connection? t.world = some c → t.world.table? c.handle = some rows → row ∈ rows →
      row.IsDamaged d → (s.get t.world row.file).2 = .error (.undecodable d) ∧
        ∀ r, (s.put t.world r).2 = .ok () := by
  intro h
  have hopen : (Session.damagedStore.connection? Session.crowdedDamage.world).map (·.handle) =
      some Session.damagedHandle := by
    decide +kernel
  have hlocks : Session.crowdedDamage.world.locks = [] := by decide +kernel
  have hput : (Session.damagedStore.put Session.crowdedDamage.world
      ⟨"/a.c", "cc", [], "/"⟩).2 ≠ .ok () := by
    decide +kernel
  obtain ⟨c, hc, hhandle⟩ := Option.map_eq_some_iff.mp hopen
  have hrows : Session.crowdedDamage.world.table? c.handle = some Session.damagedRows := by
    rw [hhandle]
    decide +kernel
  have hrow : ⟨"/a.c", "cc", "'", "/"⟩ ∈ Session.damagedRows := List.mem_cons_self
  have hdamaged : Row.IsDamaged ⟨"/a.c", "cc", "'", "/"⟩ .noClosingQuotation := by decide
  have hsteps : Session.crowdedDamage =
      [StoreStep.openStore "t" "/x.db-journal/y.db" (.finite false 5 0)].foldl
        (fun t x => (t.step x).1) Session.damagedRoot := rfl
  obtain ⟨-, hall⟩ := h _ hsteps hlocks hc hrows hrow hdamaged
  exact hput (hall _)

end CompileJournal
