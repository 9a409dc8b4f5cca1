import CompileJournal.Proofs.Commands.Reopening
import CompileJournal.Proofs.World.Small

/-!
# What opening a store disturbs

A store is opened wherever its path leads, and everything else is meant to stay as it is.  So it
does, except for what lies under the names that the database takes for its undo file, its log and
the index of its log: a file that somebody has put there by chance is taken for a leftover.  Where
nothing lies under the first two of these names, opening a store makes directories and perhaps the
database, and touches nothing else, whether it succeeds or fails.

* `DisturbsBeside`: all that opening a store changes;
* `DisturbsNothing`: what it changes where nothing lies beside the database;
* `RefusesParent`: why the directories above a database cannot be made;
* `Succeeds`: what is there when a store was opened, and when it is opened again;
* `openAt_disturbs`: all of them hold of every opening.
-/

namespace CompileJournal

namespace Store

open World (AddsNothing EndsAt IsMadeFor Refuses)

variable {w w' : World} {path : Text} {timeout : Binary64} {p x : Place}

/-! ## 1. The directories -/

/-- A directory that was made above the database of a path, in place of one that was missing. -/
def IsMadeAbove (w : World) (path : Text) (x : Place) : Prop :=
  ∃ l, lexicalPath w path = .ok l ∧ IsMadeFor w l.parent (withDirectories w path) x

theorem withDirectories_new (hw : w.IsSound) (hnul : Text.nul ∉ path)
    (hnone : w.disk.entryAt x = none) (hthere : (withDirectories w path).disk.entryAt x ≠ none) :
    IsMadeAbove w path x := by
  cases hl : lexicalPath w path with
  | error e =>
    simp only [withDirectories, hl] at hthere
    exact absurd hnone hthere
  | ok l =>
    have hmakes := World.makeDirectories_above l.parent (lexicalPath_clean hw hnul hl) hw
    simp only [IsMadeAbove, withDirectories, hl] at hthere ⊢
    exact ⟨l, rfl, hmakes.new hnone hthere⟩

theorem IsMadeAbove.directory (h : IsMadeAbove w path x) :
    (withDirectories w path).disk.entryAt x = some .directory := by
  obtain ⟨l, -, hmade⟩ := h
  exact hmade.1

/-- Only directories come with the directories. -/
theorem entryAt_withDirectories (hw : w.IsSound) (hnul : Text.nul ∉ path) {e : Entry}
    (he : (withDirectories w path).disk.entryAt x = some e) (hdir : e ≠ .directory) :
    w.disk.entryAt x = some e := by
  cases hx : w.disk.entryAt x with
  | some e' => rw [← he, (withDirectories_grows hw path).kept hx]
  | none =>
    have hmade := (withDirectories_new hw hnul hx (by simp [he])).directory
    exact absurd (Option.some.inj (he.symm.trans hmade)) hdir

/-- Why no store is opened before its directories are there. -/
inductive RefusesParent (w : World) (path : Text) : Failure → Prop
  /-- The directory that a relative path starts from is gone. -/
  | lost : Path.isAbsolute path = false → w.cwd.lost ≠ 0 →
      RefusesParent w path (.system .notFound none)
  /-- Too many directories are missing, and none is made. -/
  | deep {l : Path.Lexical} : lexicalPath w path = .ok l →
      World.maxMissingDepth < w.missingDepth l.parent.doubled l.parent.inner →
      withDirectories w path = w → RefusesParent w path .tooDeep
  /-- The parent or one above it cannot be made, and all above that is taken. -/
  | refused {l : Path.Lexical} {refused : List Name} {reason : Errno} :
      lexicalPath w path = .ok l → Refuses (withDirectories w path) l.parent refused reason →
      RefusesParent w path
        (.system reason (some (Path.Lexical.text ⟨l.parent.doubled, refused⟩)))

/-- The directories above the database of a path are made, or found. -/
def MakesParent (w : World) (path : Text) : Prop :=
  ∃ l, lexicalPath w path = .ok l ∧
    w.makeDirectories l.parent.doubled l.parent.inner = (withDirectories w path, .ok ())

/-- **Where the directories cannot be made, opening ends** with the reason, and with the directories
that could be made. -/
theorem openAt_of_not_makesParent (hw : w.IsSound) (hnul : Text.nul ∉ path)
    (hparent : ¬MakesParent w path) (timeout : Binary64) :
    ∃ e, openAt w path timeout = (withDirectories w path, .error e) ∧ RefusesParent w path e := by
  unfold openAt
  cases hl : lexicalPath w path with
  | error e =>
    refine ⟨e, by simp only [withDirectories, hl], ?_⟩
    unfold lexicalPath at hl
    split at hl
    · exact absurd hl (by simp)
    next habs =>
    split at hl
    · next hcwd =>
      obtain ⟨hlost, rfl⟩ := World.currentDirectory_error hcwd
      exact Except.error.inj hl ▸ .lost (by simpa using habs) hlost
    · exact absurd hl (by simp)
  | ok l =>
    have hmakes := World.makeDirectories_above l.parent (lexicalPath_clean hw hnul hl) hw
    cases hd : w.makeDirectories l.parent.doubled l.parent.inner with
    | mk v r =>
    have hv : withDirectories w path = v := by simp only [withDirectories, hl, hd]
    rw [hd] at hmakes
    cases r with
    | ok u => exact absurd ⟨l, hl, by rw [hd, hv]⟩ hparent
    | error e =>
      refine ⟨e, by simp only [hv, hd], ?_⟩
      rcases hmakes.failed rfl with ⟨rfl, hsame, hdeep⟩ | ⟨refused, reason, hrefuses, rfl⟩
      · exact .deep hl hdeep (hv.trans hsame)
      · exact .refused hl (hv ▸ hrefuses)

/-- Below an empty root no store is opened too deep down. -/
theorem openAt_too_deep {p : Place} (h : ∀ m ∈ p, Disk.IsClean m)
    (hempty : ∀ x, x ≠ [] → w.disk.entryAt x = none)
    (hdeep : World.maxMissingDepth + 1 < p.length) (timeout : Binary64) :
    openAt w p.text timeout = (w, .error .tooDeep) ∧ ¬MakesParent w p.text := by
  have hl : lexicalPath w p.text = .ok ⟨false, p⟩ := by
    rw [lexicalPath, if_pos (isAbsolute_text p), Path.lexical_text h]
  have hmissing : World.maxMissingDepth < w.missingDepth false p.tail := by
    have hlength :=
      World.length_le_missingDepth hempty false fun m hm => h m (List.mem_of_mem_tail hm)
    rw [List.length_tail] at hlength
    omega
  have hd : w.makeDirectories false p.tail = (w, .error .tooDeep) := if_pos hmissing
  refine ⟨by simp only [openAt, hl, Path.Lexical.parent, hd], ?_⟩
  rintro ⟨l, hl', hd'⟩
  obtain rfl := Except.ok.inj (hl.symm.trans hl')
  exact absurd (congrArg Prod.snd (hd.symm.trans hd')) (by simp)

/-! ## 2. The rest -/

/-- What opening a store disturbs at all: what lies at the places of the undo file and the log of
its database and of the index of the log, whoever has put it there. -/
structure DisturbsBeside (w : World) (path : Text) (w' : World) : Prop where
  /-- What lies neither at the place of the undo file nor of the log is still there. -/
  kept : ∀ {x e}, w.disk.entryAt x = some e →
    (∀ p, place? w path = some p → ¬LiesAside x p) → w'.disk.entryAt x = some e
  /-- What lies at these two places is still there, or it is gone and was no directory. -/
  aside : ∀ {x e}, w.disk.entryAt x = some e →
    w'.disk.entryAt x = some e ∨ w'.disk.entryAt x = none ∧ e ≠ .directory
  /-- Files that lie neither at the place nor beside it keep their content. -/
  content : ∀ {n}, n < w.disk.contents.length →
    (∀ p x, place? w path = some p → x = p ∨ LiesBeside x p →
      w.disk.entryAt x ≠ some (.file n)) → w'.disk.contentOf n = w.disk.contentOf n
  /-- All rows are kept, at the place too. -/
  rows : ∀ {q rows}, w.tableAt q = some rows →
    (∀ p, place? w path = some p → ¬LiesBeside q p) → w'.tableAt q = some rows
  /-- What has come is a directory above the database, the database, or the index of a log that is
  there. -/
  came : ∀ {x}, w.disk.entryAt x = none → w'.disk.entryAt x ≠ none →
    (IsMadeAbove w path x ∧ w'.disk.entryAt x = some .directory) ∨
      (∃ n, w'.disk.entryAt x = some (.file n)) ∧ ∃ p, place? w path = some p ∧
        (x = p ∨ Handle.logIndex ⟨0, some p⟩ = some x ∧
          (withDirectories w path).HasLog ⟨0, some p⟩)

/-- The directories alone disturb nothing. -/
theorem withDirectories_disturbs (hw : w.IsSound) (hnul : Text.nul ∉ path) :
    DisturbsBeside w path (withDirectories w path) := by
  have hgrows := withDirectories_grows hw path
  have hcontents := withDirectories_contents hw path
  refine ⟨fun he _ => hgrows.kept he, fun he => .inl (hgrows.kept he),
    fun _ _ => World.contentOf_eq hcontents _, fun hrows _ => ?_, fun hnone hthere => .inl ?_⟩
  · rw [World.tableAt_of_grows hw hgrows hcontents, hrows]
  · have hmade := withDirectories_new hw hnul hnone hthere
    exact ⟨hmade, hmade.directory⟩

/-- **Opening a store disturbs nothing but what lies beside its database.** -/
theorem openAt_disturbsBeside (hw : w.IsSound) (hprivate : isPrivateDatabase path = false)
    (hnul : Text.nul ∉ path) (timeout : Binary64) :
    DisturbsBeside w path (openAt w path timeout).1 := by
  have hbefore := withDirectories_disturbs hw hnul
  have hgrows := withDirectories_grows hw path
  rcases openAt_through hw hprivate timeout with ⟨e, he⟩ | ⟨p, v, c, ho⟩
  · rw [he]
    exact hbefore
  have helse := ho.leavesElse
  refine ⟨fun {x e} he hx => ?_, fun {x e} he => ?_, fun {n} hn hx => ?_, fun hrows hx => ?_,
    fun {x} hnone hthere => ?_⟩
  · exact helse.kept (hgrows.kept he) (hx p ho.place)
  · by_cases haside : LiesAside x p
    · by_cases hdir : e = .directory
      · exact .inl (hdir ▸ helse.directory (hgrows.kept (hdir ▸ he)))
      · exact (helse.aside haside).imp (·.trans (hgrows.kept he)) fun hgone => ⟨hgone, hdir⟩
    · exact .inl (helse.kept (hgrows.kept he) haside)
  · refine (helse.content (hgrows.disk.length.trans_lt' hn) fun x hbeside hfile => ?_).trans
      (World.contentOf_eq (withDirectories_contents hw path) n)
    exact hx p x ho.place hbeside (entryAt_withDirectories hw hnul hfile (by simp))
  · exact openAt_tableAt hw hrows timeout hx
  · by_cases hmade : (withDirectories w path).disk.entryAt x = none
    · obtain ⟨hfile, hcame⟩ := helse.came hmade hthere
      exact .inr ⟨hfile, p, ho.place, hcame⟩
    · have hmade := withDirectories_new hw hnul hnone hmade
      exact .inl ⟨hmade, helse.directory hmade.directory⟩

/-- What opening a store does where nothing lies at the places of the undo file and the log of its
database, once the directories are there. -/
structure DisturbsNothing (w : World) (path : Text) (p : Place)
    (r : World × Except Failure Store) : Prop where
  entries : ∀ x, x ≠ p → r.1.disk.entryAt x = (withDirectories w path).disk.entryAt x
  content : ∀ {n}, n < w.disk.contents.length → w.disk.entryAt p ≠ some (.file n) →
    r.1.disk.contentOf n = w.disk.contentOf n
  rows : ∀ {q rows}, w.tableAt q = some rows → r.1.tableAt q = some rows
  /-- A failure makes no database, if there is room for the name of the undo file and nobody uses
  the file that comes next. -/
  failed : ∀ {e}, r.2 = .error e → World.HasRoom ⟨0, some p⟩ →
    w.isShared w.disk.nextNumber = false →
      ∀ x, r.1.disk.entryAt x = (withDirectories w path).disk.entryAt x

theorem withDirectories_disturbsNothing (hw : w.IsSound) (e : Failure) :
    DisturbsNothing w path p (withDirectories w path, .error e) where
  entries _ _ := rfl
  content _ _ := World.contentOf_eq (withDirectories_contents hw path) _
  rows hrows := by
    rw [← hrows]
    exact World.tableAt_of_grows hw (withDirectories_grows hw path)
      (withDirectories_contents hw path) _
  failed _ _ _ _ := rfl

/-- Rows stay where the entries and the contents of all other files do. -/
theorem tableAt_bare (hw : w.IsSound) (hplace : place? w path = some p) {timeout : Binary64}
    (hentries : ∀ x, x ≠ p → (openAt w path timeout).1.disk.entryAt x =
      (withDirectories w path).disk.entryAt x)
    (hcontent : ∀ {n}, n < w.disk.contents.length → w.disk.entryAt p ≠ some (.file n) →
      (openAt w path timeout).1.disk.contentOf n = w.disk.contentOf n)
    {q : Place} {rows : Table} (hrows : w.tableAt q = some rows) :
    (openAt w path timeout).1.tableAt q = some rows := by
  by_cases hq : q = p
  · subst hq
    refine openAt_tableAt hw hrows timeout fun other hother => ?_
    obtain rfl := Option.some.inj (hplace.symm.trans hother)
    exact Handle.not_isBeside rfl
  · obtain ⟨n, hh, -⟩ := World.hosts_of_tableAt hw hrows
    have hfile := hh.place rfl
    refine (World.tableAt_eq_of_content ?_ fun m hm => ?_).trans hrows
    · rw [hentries q hq, (withDirectories_grows hw path).kept hfile, hfile]
    · rw [hfile, Option.some.injEq, Entry.file.injEq] at hm
      subst hm
      exact hcontent hh.number fun hp => hq (hw.tree.unique hfile hp)

/-- **A failure leaves no new database** where nothing lies beside it. -/
theorem OpensThrough.entryAt_of_error {v : World} {c : Connection}
    (ho : OpensThrough w path timeout p v c) (hw : w.IsSound)
    (hbare : IsBare (withDirectories w path) p) (hroom : World.HasRoom ⟨0, some p⟩)
    (hfree : w.isShared w.disk.nextNumber = false) {e : Failure}
    (herror : (openAt w path timeout).2 = .error e) :
    (openAt w path timeout).1.disk.entryAt p = (withDirectories w path).disk.entryAt p := by
  have hgrows := withDirectories_grows hw path
  cases hthere : (withDirectories w path).disk.entryAt p with
  | some e' =>
    refine ho.leavesElse.kept hthere fun haside => ?_
    exact absurd (hthere.symm.trans (hbare p haside)) (by simp)
  | none =>
    have hfree' : (withDirectories w path).isShared
        (withDirectories w path).disk.nextNumber = false := by
      rw [World.isShared, hgrows.locks, hgrows.connections, Disk.nextNumber,
        withDirectories_contents hw path]
      exact hfree
    obtain ⟨s, hs⟩ := ho.succeeds hbare hroom hfree' hthere
    rw [hs] at herror
    exact absurd herror (by simp)

/-- **Where nothing lies beside the database, opening a store disturbs nothing.** -/
theorem openAt_disturbsNothing (hw : w.IsSound) (hplace : place? w path = some p)
    (hbare : IsBare (withDirectories w path) p) (timeout : Binary64) :
    DisturbsNothing w path p (openAt w path timeout) := by
  obtain ⟨-, -, -, hprivate, -⟩ := steps_of_place? hplace
  have hgrows := withDirectories_grows hw path
  have hcontents := withDirectories_contents hw path
  rcases openAt_through hw hprivate timeout with ⟨e, he⟩ | ⟨q, v, c, ho⟩
  · rw [he]
    exact withDirectories_disturbsNothing hw e
  obtain rfl : p = q := Option.some.inj (hplace.symm.trans ho.place)
  obtain ⟨hentries, hcontent⟩ := ho.leaves_all hbare
  have hcontent' : ∀ {n}, n < w.disk.contents.length → w.disk.entryAt p ≠ some (.file n) →
      (openAt w path timeout).1.disk.contentOf n = w.disk.contentOf n := by
    intro n hn hp
    refine (hcontent n (hcontents.symm ▸ hn) fun hfile => ?_).trans
      (World.contentOf_eq hcontents n)
    exact hp (World.file_of_grows (hgrows.sound hw) hgrows hcontents hfile)
  refine ⟨hentries, hcontent', fun hrows => tableAt_bare hw hplace hentries hcontent' hrows,
    fun herror hroom hfree x => ?_⟩
  by_cases hx : x = p
  · rw [hx]
    exact ho.entryAt_of_error hw hbare hroom hfree herror
  · exact hentries x hx

/-! ## 3. Success -/

/-- What is there when a store was opened. -/
structure Succeeds (w : World) (path : Text) (w' : World) (l : Path.Lexical) (p : Place) :
    Prop where
  lexical : lexicalPath w path = .ok l
  place : place? w path = some p
  parent : (withDirectories w path).isDirectory l.parent.text = true
  table : w'.tableAt p = some ((w.tableAt p).getD [])
  /-- If no link lay at the places of the undo file and the log, the parent stays a directory, and
  opening the path again adds nothing and keeps the table. -/
  again : (∀ x t, LiesAside x p → w.disk.entryAt x ≠ some (.link t)) →
    w'.isDirectory l.parent.text = true ∧ ∀ timeout,
      w'.AddsNothing (openAt w' path timeout).1 ∧
        (openAt w' path timeout).1.tableAt p = w'.tableAt p

theorem openAt_succeeds (hw : w.IsSound) (hprivate : isPrivateDatabase path = false)
    (hnul : Text.nul ∉ path) {s : Store} (hs : (openAt w path timeout).2 = .ok s) :
    ∃ l p, Succeeds w path (openAt w path timeout).1 l p := by
  rcases openAt_through hw hprivate timeout with ⟨e, he⟩ | ⟨p, v, c, ho⟩
  · rw [he] at hs
    exact absurd hs (by simp)
  obtain ⟨l, hl, hd, -⟩ := steps_of_place? ho.place
  have hmakes := World.makeDirectories_above l.parent (lexicalPath_clean hw hnul hl) hw
  rw [hd] at hmakes
  have htable := ho.tableAt_of_ok hw ⟨s, hs⟩
  refine ⟨l, p, hl, ho.place, hmakes.done rfl, htable, fun hlink => ?_⟩
  have hlink' : ∀ x t, LiesAside x p →
      (withDirectories w path).disk.entryAt x ≠ some (.link t) := fun x t haside he =>
    hlink x t haside (entryAt_withDirectories hw hnul he (by simp))
  obtain ⟨⟨l', hl', hparent⟩, -, hplace⟩ :=
    ho.later hw hnul (ho.leavesElse.shape hlink') (ho.cwd_eq hw)
  obtain rfl := Except.ok.inj (hl.symm.trans hl')
  refine ⟨hparent, fun timeout' => ⟨ho.again hw hnul ⟨s, hs⟩ hlink' timeout', ?_⟩⟩
  rw [htable]
  refine openAt_tableAt ho.after.1 htable timeout' fun other hother => ?_
  rcases hplace with hsame | hnone
  · obtain rfl := Option.some.inj (hsame.symm.trans hother)
    exact fun hbeside => ho.ne_of_isBeside hbeside rfl
  · rw [hother] at hnone
    exact absurd hnone (by simp)

/-! ## 4. The theorem -/

/-- **What opening a store disturbs.**  Whether it succeeds or fails, it makes directories in place
of missing ones above the database, and perhaps the database, and it touches nothing else but what
lies beside the database, and not even that if nothing lies at the places of the undo file and the
log.  Without its directories no database is made, and the failure says which of them is in the way.
Success leaves the table in place, and opening the path again adds nothing. -/
theorem openAt_disturbs (hw : w.IsSound) (hprivate : isPrivateDatabase path = false)
    (hnul : Text.nul ∉ path) (timeout : Binary64) :
    DisturbsBeside w path (openAt w path timeout).1 ∧
    (∀ p, place? w path = some p → IsBare (withDirectories w path) p →
      DisturbsNothing w path p (openAt w path timeout)) ∧
    (¬MakesParent w path → ∃ e, openAt w path timeout = (withDirectories w path, .error e) ∧
      RefusesParent w path e ∧ ∀ x, w.disk.entryAt x = none →
        (openAt w path timeout).1.disk.entryAt x ≠ none → IsMadeAbove w path x) ∧
    ∀ s, (openAt w path timeout).2 = .ok s →
      ∃ l p, Succeeds w path (openAt w path timeout).1 l p := by
  refine ⟨openAt_disturbsBeside hw hprivate hnul timeout,
    fun p hplace hbare => openAt_disturbsNothing hw hplace hbare timeout, fun hparent => ?_,
    fun s hs => openAt_succeeds hw hprivate hnul hs⟩
  obtain ⟨e, he, hrefuses⟩ := openAt_of_not_makesParent hw hnul hparent timeout
  refine ⟨e, he, hrefuses, fun x hnone hthere => ?_⟩
  rw [he] at hthere
  exact withDirectories_new hw hnul hnone hthere

/-- A root with a directory and a file. -/
def sharedRoot : World :=
  World.written [(["d"], .directory), (["notes"], .file 0)] [.text "abc".toList]

theorem sharedRoot_isSound : sharedRoot.IsSound :=
  ⟨Disk.isTree_of_entries (by decide) (by decide), rfl⟩

/-- A store is opened below the directory and cannot be opened below the file. -/
theorem openAt_disturbs_sharedRoot :
    (sharedRoot.IsSound ∧ isPrivateDatabase "d/e/x.db".toList = false ∧
      Text.nul ∉ "d/e/x.db".toList ∧ isPrivateDatabase "notes/e/x.db".toList = false ∧
      Text.nul ∉ "notes/e/x.db".toList) ∧
    (place? sharedRoot "d/e/x.db" = some (["x.db", "e", "d"] : Place) ∧
      DisturbsNothing sharedRoot "d/e/x.db" ["x.db", "e", "d"]
        (openAt sharedRoot "d/e/x.db" (.finite false 5 0)) ∧
      ∃ s l p, (openAt sharedRoot "d/e/x.db" (.finite false 5 0)).2 = .ok s ∧
        Succeeds sharedRoot "d/e/x.db" (openAt sharedRoot "d/e/x.db" (.finite false 5 0)).1 l p) ∧
    ¬MakesParent sharedRoot "notes/e/x.db" ∧
      RefusesParent sharedRoot "notes/e/x.db" (.system .notDirectory (some "/notes/e")) ∧
      DisturbsBeside sharedRoot "notes/e/x.db"
        (openAt sharedRoot "notes/e/x.db" (.finite false 5 0)).1 := by
  have hfile : isPrivateDatabase "d/e/x.db".toList = false := by decide
  have hnul : Text.nul ∉ "d/e/x.db".toList := by decide
  have hfile' : isPrivateDatabase "notes/e/x.db".toList = false := by decide
  have hnul' : Text.nul ∉ "notes/e/x.db".toList := by decide
  obtain ⟨-, hbare, -, hsucceeds⟩ :=
    openAt_disturbs sharedRoot_isSound hfile hnul (.finite false 5 0)
  obtain ⟨hbeside, -, hrefuses, -⟩ :=
    openAt_disturbs sharedRoot_isSound hfile' hnul' (.finite false 5 0)
  have hplace : place? sharedRoot "d/e/x.db" = some (["x.db", "e", "d"] : Place) := by decide +kernel
  have hopened : (openAt sharedRoot "d/e/x.db" (.finite false 5 0)).2 =
      .ok ⟨"d/e/x.db", .finite false 5 0, 0⟩ := by
    decide +kernel
  have hopened' : (openAt sharedRoot "notes/e/x.db" (.finite false 5 0)).2 =
      .error (.system .notDirectory (some "/notes/e")) := by
    decide +kernel
  have hparent : ¬MakesParent sharedRoot "notes/e/x.db" := by
    rintro ⟨l, hl, hd⟩
    have hlexical : lexicalPath sharedRoot "notes/e/x.db" =
        .ok ⟨false, ["x.db", "e", "notes"]⟩ := by
      decide +kernel
    obtain rfl := Except.ok.inj (hlexical.symm.trans hl)
    exact absurd (congrArg Prod.snd hd) (by decide +kernel)
  refine ⟨⟨sharedRoot_isSound, hfile, hnul, hfile', hnul'⟩, ⟨hplace, hbare _ hplace ?_, ?_⟩,
    hparent, ?_, hbeside⟩
  · rintro x (hx | hx)
    · obtain rfl := Option.some.inj hx
      decide +kernel
    · obtain rfl := Option.some.inj hx
      decide +kernel
  · obtain ⟨l, p, hall⟩ := hsucceeds _ hopened
    exact ⟨_, l, p, hopened, hall⟩
  · obtain ⟨e, he, hall, -⟩ := hrefuses hparent
    rw [he] at hopened'
    exact Except.error.inj hopened' ▸ hall

/-- A root with a database where another one has its undo file. -/
def leftoverRoot : World := World.written [(["x.db-journal"], .file 0)]
  [.database ⟨1, 1, some [⟨"/a.c", "cc", "", "/"⟩]⟩]

/-- A root with a link to itself where a database has its undo file. -/
def linkedRoot : World := World.written [(["y-journal"], .link ".")] []

/-- **Opening a store is not always harmless.**  It removes a database, and the rows in it, that lies
where it looks for an undo file.  It fails and leaves a new database for which an undo file would
have too long a name.  It removes a link that is a part of its own path, so that opening again adds
what was there.  And it fails without naming any directory where too many are missing. -/
theorem not_openAt_disturbs :
    (¬∀ (w : World) (path : Text) (timeout : Binary64) (x : Place) (e : Entry), w.IsSound →
      isPrivateDatabase path = false → Text.nul ∉ path → w.disk.entryAt x = some e →
      place? w path ≠ some x → (openAt w path timeout).1.disk.entryAt x = some e) ∧
    (¬∀ (w : World) (path : Text) (timeout : Binary64) (q : Place) (rows : Table), w.IsSound →
      isPrivateDatabase path = false → Text.nul ∉ path → w.tableAt q = some rows →
      (openAt w path timeout).1.tableAt q = some rows) ∧
    (¬∀ (w : World) (path : Text) (timeout : Binary64) (x : Place) (n : FileNumber), w.IsSound →
      isPrivateDatabase path = false → Text.nul ∉ path → w.disk.entryAt x = none →
      (openAt w path timeout).1.disk.entryAt x = some (.file n) →
      ∃ s, (openAt w path timeout).2 = .ok s) ∧
    (¬∀ (w : World) (path : Text) (timeout : Binary64) (s : Store), w.IsSound →
      isPrivateDatabase path = false → Text.nul ∉ path → (openAt w path timeout).2 = .ok s →
      AddsNothing (openAt w path timeout).1
        (openAt (openAt w path timeout).1 path timeout).1) ∧
    ¬∀ (w : World) (path : Text) (timeout : Binary64) (e : Failure), w.IsSound →
      isPrivateDatabase path = false → Text.nul ∉ path → ¬MakesParent w path →
      (openAt w path timeout).2 = .error e → ∃ reason about, e = .system reason about := by
  have hleftover : leftoverRoot.IsSound :=
    ⟨Disk.isTree_of_entries (by decide) (by decide), rfl⟩
  have hempty : (World.written [] []).IsSound :=
    ⟨Disk.isTree_of_entries (by decide) (by decide), rfl⟩
  refine ⟨fun hall => ?_, fun hall => ?_, fun hall => ?_, fun hall => ?_, fun hall => ?_⟩
  · have hkept := hall leftoverRoot "x.db" (.finite false 5 0) ["x.db-journal"] (.file 0)
      hleftover (by decide) (by decide) (by decide) (by decide +kernel)
    exact absurd hkept (by decide +kernel)
  · have hkept := hall leftoverRoot "x.db" (.finite false 5 0) ["x.db-journal"]
      [⟨"/a.c", "cc", "", "/"⟩] hleftover (by decide) (by decide) (by decide +kernel)
    exact absurd hkept (by decide +kernel)
  · obtain ⟨s, hs⟩ := hall (World.written [] []) (List.replicate 248 'a') (.finite false 5 0)
      [List.replicate 248 'a'] 0 hempty (by decide +kernel) (by decide +kernel) (by decide +kernel)
      (by decide +kernel)
    have herror : (openAt (World.written [] []) (List.replicate 248 'a') (.finite false 5 0)).2 =
        .error (.database .cannotOpen) := by
      decide +kernel
    rw [hs] at herror
    exact absurd herror (by simp)
  · have hlinked : linkedRoot.IsSound :=
      ⟨Disk.isTree_of_entries (by decide) (by decide), rfl⟩
    have hsame := hall linkedRoot "y-journal/y" (.finite false 5 0)
      ⟨"y-journal/y", .finite false 5 0, 0⟩ hlinked (by decide) (by decide) (by decide +kernel)
      ["y-journal"]
    exact absurd (hsame (by decide +kernel)) (by decide +kernel)
  · have hclean : ∀ m ∈ List.replicate 993 ['a'], Disk.IsClean m := by
      intro m hm
      obtain rfl := (List.mem_replicate.mp hm).2
      exact ⟨by decide, by decide, by decide, by decide, by decide⟩
    have hroot : ∀ x, x ≠ [] → (World.written [] []).disk.entryAt x = none := by
      rintro (_ | ⟨name, outer⟩) hx
      · exact absurd rfl hx
      · rfl
    obtain ⟨hopened, hparent⟩ :=
      openAt_too_deep hclean hroot (by decide +kernel) (.finite false 5 0)
    obtain ⟨reason, about, herror⟩ := hall (World.written [] [])
      (Place.text (List.replicate 993 ['a'])) (.finite false 5 0) .tooDeep hempty
      (by decide +kernel) (no_nul_text fun m hm => (hclean m hm).no_nul) hparent (by rw [hopened])
    exact absurd herror (by simp)

end Store

end CompileJournal
