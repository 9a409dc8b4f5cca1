import CompileJournal.Arguments.Classify
import CompileJournal.Commands.Record
import CompileJournal.Proofs.Journal.Rows
import CompileJournal.Proofs.Journal.Stores
import CompileJournal.Proofs.World.Lookup

/-!
# Recording all inputs of a compile

A compile is recorded file by file, and the first file that cannot be recorded ends it.  So the
question is what recording one file does to those that come after it.  It does nothing to them: a
record that was kept makes ready for the next one, and all that it takes away from the disk is a
file that lies where the undo file of the database goes.  An input that lies there is lost after
the first record, and it is the only one that can be.

* `record_of_isReady`: a store that is ready records every input that is found;
* `record_all`: so does a store that can record at all, if no later input lies where the undo file
  goes;
* `record_ok`: a recording that went through has put one row for each input.
-/

namespace CompileJournal

/-! ## 1. One input after the other -/

open World (IsReady)

variable {w : World} {s : Store} {c : Connection} {i : Invocation}

/-- A world in which an input is looked up as in the one where a recording began. -/
structure LooksAlike (w v : World) : Prop where
  sound : v.IsSound
  cwd : v.cwd = w.cwd
  link : ∀ {x t}, v.disk.entryAt x = some (.link t) → w.disk.entryAt x = some (.link t)

theorem LooksAlike.trans {u v : World} (h : LooksAlike w v) (h' : LooksAlike v u) :
    LooksAlike w u :=
  ⟨h'.sound, h'.cwd.trans h.cwd, fun hx => h.link (h'.link hx)⟩

/-- What an input is recorded as: the real path of the place it leads to. -/
def RecordedAs (w : World) (i : Invocation) (input file : Text) : Prop :=
  ∃ v q, LooksAlike w v ∧ w.find (Path.join i.workdir input) = .ok ⟨q, 0⟩ ∧
    v.find (Path.join i.workdir input) = .ok ⟨q, 0⟩ ∧ v.resolve i.workdir input = .ok file

/-- What is left when all inputs were recorded. -/
structure RecordsAll (w : World) (s : Store) (c : Connection) (i : Invocation)
    (inputs : List Text) (o : Outcome (List Text)) (c' : Connection) : Prop where
  isOpen : s.IsOpen o.world c'
  handle : c'.handle = c.handle
  alike : LooksAlike w o.world
  disk : w.disk.ChangesOnly c.handle.IsBeside (· = c.handle.file) o.world.disk
  locks : o.world.locks = w.locks
  others : o.world.connections.set s.connection none = w.connections.set s.connection none
  files : ∃ files, o.result = .ok files ∧
    (∀ input ∈ inputs, ∃ file ∈ files, RecordedAs w i input file) ∧
    ∀ rows, w.table? c.handle = some rows → o.world.table? c.handle =
      some (Table.putAll (fun file => Row.ofRecord (i.recordFor file)) files rows)

/-- A store that recorded all inputs can be closed. -/
theorem RecordsAll.closed {inputs : List Text} {o : Outcome (List Text)} {c' : Connection}
    (h : RecordsAll w s c i inputs o c') :
    (s.close o.world).IsSound ∧ (s.close o.world).cwd = w.cwd :=
  have hs := h.isOpen.starts
  ⟨Store.close_sound h.isOpen.connection hs.sound hs.hosts,
    (Store.close_bounded h.isOpen.connection hs.sound hs.hosts).cwd.trans h.alike.cwd⟩

/-- An input that is found, in a world that is looked up alike. -/
theorem recordedAs_of_find (hbase : Path.isAbsolute i.workdir = true) {v : World} {input : Text}
    {q : Place} (halike : LooksAlike w v) (h : w.find (Path.join i.workdir input) = .ok ⟨q, 0⟩)
    (h' : v.find (Path.join i.workdir input) = .ok ⟨q, 0⟩) :
    ∃ file, v.resolve i.workdir input = .ok file ∧ RecordedAs w i input file := by
  obtain ⟨file, hfile⟩ := World.resolve_ok hbase h'
  exact ⟨file, hfile, v, q, halike, h, h', hfile⟩

/-- Recording nothing. -/
theorem recordsAll_nil (ho : s.IsOpen w c) : RecordsAll w s c i [] (record s i w []) c where
  isOpen := ho
  handle := rfl
  alike := ⟨ho.starts.sound, rfl, id⟩
  disk := .refl ho.starts.sound.tree
  locks := rfl
  others := rfl
  files := ⟨[], rfl, by simp, fun _ h => h⟩

/-- One input more in front of those that were recorded. -/
theorem recordsAll_cons {input file : Text} {rest : List Text} {w' : World} {c' c'' : Connection}
    (hfile : w.resolve i.workdir input = .ok file)
    (hput : s.put w (i.recordFor file) = (w', .ok ()))
    (hrecorded : s.Recorded w c (Row.ofRecord (i.recordFor file)) w' c')
    (hname : RecordedAs w i input file)
    (hnames : ∀ {x file}, x ∈ rest → RecordedAs w' i x file → RecordedAs w i x file)
    (hrest : RecordsAll w' s c' i rest (record s i w' rest) c'') :
    RecordsAll w s c i (input :: rest) (record s i w (input :: rest)) c'' := by
  have halike : LooksAlike w w' :=
    ⟨hrecorded.isOpen.starts.sound, hrecorded.cwd, hrecorded.disk.link⟩
  have hstep : recordInput w s i input =
      ⟨w', [.stored file, .recorded i.driver file], .ok file⟩ := by
    simp only [recordInput, hfile, hput]
  obtain ⟨files, hok, hfiles, hrows⟩ := hrest.files
  have hrecord : record s i w (input :: rest) =
      ⟨(record s i w' rest).world, [.stored file, .recorded i.driver file] ++
        (record s i w' rest).events, .ok (file :: files)⟩ := by
    simp only [record, hstep, hok]
    rfl
  rw [hrecord]
  refine ⟨hrest.isOpen, hrest.handle.trans hrecorded.handle, halike.trans hrest.alike,
    hrecorded.disk.trans (hrecorded.handle ▸ hrest.disk), hrest.locks.trans hrecorded.locks,
    hrest.others.trans hrecorded.others, file :: files, rfl, fun x hx => ?_, fun rows hrows' => ?_⟩
  · rcases List.mem_cons.mp hx with rfl | hx
    · exact ⟨file, List.mem_cons_self, hname⟩
    · obtain ⟨file', hmem, hfile'⟩ := hfiles x hx
      exact ⟨file', List.mem_cons_of_mem _ hmem, hnames hx hfile'⟩
  · obtain ⟨rows', hbefore, hafter⟩ := hrecorded.rows
    rw [hrows', Option.some.injEq] at hbefore
    subst hbefore
    rw [← hrecorded.handle] at hafter ⊢
    exact hrows _ hafter

/-- An input that is found before and after a record is named alike. -/
theorem recordedAs_before {w' : World} {input file : Text} {q : Place} (halike : LooksAlike w w')
    (h : w.find (Path.join i.workdir input) = .ok ⟨q, 0⟩)
    (h' : w'.find (Path.join i.workdir input) = .ok ⟨q, 0⟩) (hname : RecordedAs w' i input file) :
    RecordedAs w i input file := by
  obtain ⟨v, q', hv, hfind, hfind', hfile⟩ := hname
  rw [h', Except.ok.injEq, Spot.mk.injEq] at hfind
  obtain ⟨rfl, -⟩ := hfind
  exact ⟨v, q, halike.trans hv, h, hfind', hfile⟩

/-- **A store that is ready records every input that is found.** -/
theorem record_of_isReady (hbase : Path.isAbsolute i.workdir = true) (inputs : List Text)
    (ho : s.IsOpen w c) {rows : Table} (hrows : w.table? c.handle = some rows)
    (hready : IsReady w c)
    (hfound : ∀ x ∈ inputs, ∃ q, w.find (Path.join i.workdir x) = .ok ⟨q, 0⟩) :
    ∃ c', RecordsAll w s c i inputs (record s i w inputs) c' := by
  induction inputs generalizing w c rows with
  | nil => exact ⟨c, recordsAll_nil ho⟩
  | cons input rest ih =>
    obtain ⟨q, hq⟩ := hfound input List.mem_cons_self
    obtain ⟨file, hfile, hname⟩ :=
      recordedAs_of_find hbase ⟨ho.starts.sound, rfl, id⟩ hq hq
    obtain ⟨hok, hentry⟩ := Store.put_of_isReady ho hrows hready (i.recordFor file)
    obtain ⟨c', hput, hrecorded⟩ := Store.put_recorded ho hok
    have halike : LooksAlike w (s.put w (i.recordFor file)).1 :=
      ⟨hrecorded.isOpen.starts.sound, hrecorded.cwd, hrecorded.disk.link⟩
    have hkept : ∀ {x q}, w.find (Path.join i.workdir x) = .ok ⟨q, 0⟩ →
        (s.put w (i.recordFor file)).1.find (Path.join i.workdir x) = .ok ⟨q, 0⟩ := fun h =>
      World.find_kept hrecorded.cwd h fun y e hy _ => (hentry y).trans hy
    obtain ⟨rows', -, hrows'⟩ := hrecorded.rows
    obtain ⟨c'', hrest⟩ := ih hrecorded.isOpen (hrecorded.handle.symm ▸ hrows') hrecorded.ready
      fun x hx => by
        obtain ⟨q, hq⟩ := hfound x (List.mem_cons_of_mem _ hx)
        exact ⟨q, hkept hq⟩
    refine ⟨c'', recordsAll_cons hfile hput hrecorded hname (fun hx hname => ?_) hrest⟩
    obtain ⟨q, hq⟩ := hfound _ (List.mem_cons_of_mem _ hx)
    exact recordedAs_before halike hq (hkept hq) hname

/-- **A store that can record at all records every input that is found**, if none but the first
lies where the undo file goes. -/
theorem record_all (hbase : Path.isAbsolute i.workdir = true) (inputs : List Text)
    (ho : s.IsOpen w c) (hput : ∀ r, (s.put w r).2 = .ok ())
    (hfound : ∀ x ∈ inputs, ∃ q, w.find (Path.join i.workdir x) = .ok ⟨q, 0⟩)
    (happart : ∀ x ∈ inputs.tail, ∀ q, w.find (Path.join i.workdir x) = .ok ⟨q, 0⟩ →
      c.handle.undo ≠ some q) :
    ∃ c', RecordsAll w s c i inputs (record s i w inputs) c' := by
  cases inputs with
  | nil => exact ⟨c, recordsAll_nil ho⟩
  | cons input rest =>
    obtain ⟨q, hq⟩ := hfound input List.mem_cons_self
    obtain ⟨file, hfile, hname⟩ :=
      recordedAs_of_find hbase ⟨ho.starts.sound, rfl, id⟩ hq hq
    obtain ⟨c', hputs, hrecorded⟩ := Store.put_recorded ho (hput (i.recordFor file))
    have halike : LooksAlike w (s.put w (i.recordFor file)).1 :=
      ⟨hrecorded.isOpen.starts.sound, hrecorded.cwd, hrecorded.disk.link⟩
    have hkept : ∀ x ∈ rest, ∀ q, w.find (Path.join i.workdir x) = .ok ⟨q, 0⟩ →
        (s.put w (i.recordFor file)).1.find (Path.join i.workdir x) = .ok ⟨q, 0⟩ := by
      intro x hx q hq
      refine World.find_kept hrecorded.cwd hq ?_
      intro y e hy hneeded
      rcases hneeded with rfl | hlink | rfl
      · exact hrecorded.disk.directory hy
      · exact hrecorded.kept (fun _ => hlink) hy
      · exact hrecorded.kept (fun hu => absurd hu (happart x hx _ hq)) hy
    obtain ⟨rows', -, hrows'⟩ := hrecorded.rows
    obtain ⟨c'', hrest⟩ := record_of_isReady hbase rest hrecorded.isOpen
      (hrecorded.handle.symm ▸ hrows') hrecorded.ready fun x hx => by
        obtain ⟨q, hq⟩ := hfound x (List.mem_cons_of_mem _ hx)
        exact ⟨q, hkept x hx q hq⟩
    refine ⟨c'', recordsAll_cons hfile hputs hrecorded hname (fun hx hname => ?_) hrest⟩
    obtain ⟨q, hq⟩ := hfound _ (List.mem_cons_of_mem _ hx)
    exact recordedAs_before halike hq (hkept _ hx q hq) hname

/-! ## 2. A recording that went through -/

theorem Store.Recorded.sameLinks {w' : World} {row : Row} {c' : Connection}
    (h : s.Recorded w c row w' c') : w.disk.SameLinks w'.disk :=
  fun _ t => ⟨h.disk.link, h.kept fun _ => ⟨t, rfl⟩⟩

/-- What is left when all inputs were recorded, however that came about: each of them has put its
row under its real path. -/
structure RecordsEach (w : World) (s : Store) (c : Connection) (i : Invocation)
    (inputs files : List Text) (w' : World) (c' : Connection) : Prop where
  isOpen : s.IsOpen w' c'
  handle : c'.handle = c.handle
  cwd : w'.cwd = w.cwd
  links : w.disk.SameLinks w'.disk
  names : inputs.map (fun x => w.realPath (Path.join i.workdir x)) = files.map .ok
  rows : ∀ rows, w.table? c.handle = some rows → w'.table? c.handle =
    some (Table.putAll (fun file => Row.ofRecord (i.recordFor file)) files rows)

/-- **A recording that went through has put one row for each input**, in the order of the
inputs. -/
theorem record_ok {inputs files : List Text} (ho : s.IsOpen w c)
    (hok : (record s i w inputs).result = .ok files) :
    ∃ c', RecordsEach w s c i inputs files (record s i w inputs).world c' := by
  induction inputs generalizing w c files with
  | nil =>
    obtain rfl : [] = files := Except.ok.inj hok
    exact ⟨c, ho, rfl, rfl, .refl _, rfl, fun _ h => h⟩
  | cons input rest ih =>
    rw [record] at hok ⊢
    unfold recordInput at hok ⊢
    cases hresolve : w.resolve i.workdir input with
    | error e =>
      rw [hresolve] at hok
      exact absurd hok (by simp)
    | ok file =>
    cases hput : s.put w (i.recordFor file) with
    | mk w' r =>
    cases r with
    | error e =>
      simp only [hresolve, hput] at hok
      exact absurd hok (by simp)
    | ok u =>
    simp only [hresolve, hput] at hok ⊢
    obtain ⟨c', -, hrecorded⟩ := Store.put_recorded ho (congrArg Prod.snd hput)
    rw [hput] at hrecorded
    cases hlater : (record s i w' rest).result with
    | error e =>
      rw [hlater] at hok
      exact absurd hok (by simp [Except.map])
    | ok files' =>
    rw [hlater] at hok
    obtain rfl : file :: files' = files := Except.ok.inj hok
    obtain ⟨c'', heach⟩ := ih hrecorded.isOpen hlater
    refine ⟨c'', heach.isOpen, heach.handle.trans hrecorded.handle,
      heach.cwd.trans hrecorded.cwd, hrecorded.sameLinks.trans heach.links, ?_, ?_⟩
    · rw [List.map_cons, List.map_cons, World.realPath_of_resolve hresolve, ← heach.names]
      simp only [World.realPath_eq hrecorded.cwd hrecorded.sameLinks]
    · intro rows hrows
      obtain ⟨rows', hbefore, hafter⟩ := hrecorded.rows
      obtain rfl := Option.some.inj (hrows.symm.trans hbefore)
      rw [← hrecorded.handle] at hafter ⊢
      have hrest := heach.rows _ hafter
      exact hrest

/-! ## 3. The inputs of a compile -/

theorem isSource_of_mem_inputs {table : ValueFlags} {isSource : Text → Bool}
    {arguments : List Text} {x : Text} (h : x ∈ (classifyWith table isSource arguments).inputs) :
    isSource x = true := by
  fun_induction classifyWith table isSource arguments with
  | case1 | case2 => exact absurd h (by simp)
  | case3 token _ value rest ih => exact ih h
  | case4 token rest _ _ ih => exact ih h
  | case5 token rest _ _ hsource ih =>
    rcases List.mem_cons.mp h with rfl | h
    · exact hsource
    · exact ih h
  | case6 token rest _ _ _ ih => exact ih h

/-- Every input of a compile is found, at a regular file. -/
theorem find_of_mem_inputs {table : ValueFlags} {workdir : Text} {arguments : List Text} {x : Text}
    (h : x ∈ (classify w table workdir arguments).inputs) :
    ∃ q n, w.find (Path.join workdir x) = .ok ⟨q, 0⟩ ∧ w.disk.entryAt q = some (.file n) := by
  have hsource := isSource_of_mem_inputs h
  rw [World.isSource, Bool.and_eq_true] at hsource
  exact World.isFile_iff.mp hsource.2

/-- What is recorded for the inputs of a compile are the absolute paths that they resolve to. -/
theorem resolve_inputs {table : ValueFlags} {workdir : Text} {arguments files : List Text}
    (h : (classify w table workdir arguments).inputs.map
      (fun x => w.realPath (Path.join workdir x)) = files.map .ok) :
    (classify w table workdir arguments).inputs.map (w.resolve workdir) = files.map .ok := by
  rw [← h]
  refine List.map_congr_left fun x hx => ?_
  obtain ⟨q, n, hq, -⟩ := find_of_mem_inputs hx
  have hexists : w.exists? (Path.join workdir x) = true := by
    rw [World.exists?, hq]
    rfl
  rw [World.resolve, if_pos hexists]

end CompileJournal
