import CompileJournal.Proofs.World.Lookup
import CompileJournal.Proofs.World.Refusals

/-!
# The directories above a path

The directories above a database are those of a lexical path.  Which of them are missing is found
out by looking them up, and a lookup follows links, so a directory that is made need not lie where
the text of its path says.  What holds is this: every new directory is what one of the paths leads
to now and did not lead to before.  Where no directory can be made, the failure names the whole path
or the first directory that cannot be made, and everything above that is there already.

* `Path.lexical_text`, `Path.Lexical.names_text`: lexical paths and their texts;
* `World.EndsAt`: looking up a lexical path;
* `endsAt_above`: what leads somewhere leads through directories;
* `IsMadeFor`, `Refuses`: a directory that was made, and why one was not;
* `makeMissing_builds`: what the maker of directories leaves, by induction on the path;
* `makeDirectories_above`, `makeDirectories_of_isDirectory`: the same for those who ask for the
  directories, the first time and the next.
-/

namespace CompileJournal

open Disk (IsClean)

/-! ## 1. The text of a lexical path -/

namespace Path

theorem ofNames_eq (ns : List Name) : ofNames ns = '/' :: Text.joinWith ['/'] ns := by
  unfold Text.joinWith
  induction ns with
  | nil => rfl
  | cons first rest ih =>
    cases rest with
    | nil => simp [ofNames]
    | cons second rest =>
      rw [List.intercalate_cons_cons, List.append_assoc, List.singleton_append, ← ih]
      simp [ofNames]

theorem names_slash {p : Text} (hp : p ≠ []) : names ('/' :: p) = names p := by
  obtain ⟨c, rest, rfl⟩ := List.exists_cons_of_ne_nil hp
  have hfilter : (pieces ('/' :: c :: rest)).filter (· ≠ []) =
      (pieces (c :: rest)).filter (· ≠ []) := by
    rw [pieces_slash, List.filter_cons_of_neg (by simp)]
  simp only [names, hfilter, List.getLast?_cons_cons]

/-- The text of a place has one slash at its start. -/
theorem startsDoubled_text {p : Place} (h : ∀ m ∈ p, IsClean m) : startsDoubled p.text = false := by
  cases hp : p.reverse with
  | nil =>
    obtain rfl := List.reverse_eq_nil_iff.mp hp
    decide
  | cons first rest =>
    have hclean := h first (List.mem_reverse.mp (hp ▸ List.mem_cons_self))
    obtain ⟨c, more, rfl⟩ := List.exists_cons_of_ne_nil hclean.ne_nil
    have hc : '/' ≠ c := fun hc => hclean.no_slash (hc ▸ List.mem_cons_self)
    simp [startsDoubled, Place.text, ofNames, hp, Text.beginsWith, hc]

/-- **The lexical form of the text of a place** is the place. -/
theorem lexical_text {p : Place} (h : ∀ m ∈ p, IsClean m) : lexical p.text = ⟨false, p⟩ := by
  have hclimb : ∀ (names inner : List Name), (∀ m ∈ names, IsClean m) →
      names.foldl climb inner = names.reverse ++ inner := by
    intro names
    induction names with
    | nil => exact fun _ _ => rfl
    | cons name names ih =>
      intro inner hnames
      have hname := hnames name List.mem_cons_self
      rw [List.foldl_cons, ih _ fun m hm => hnames m (List.mem_cons_of_mem _ hm)]
      simp [climb, hname.ne_nil, hname.ne_here, hname.ne_above]
  have hpieces : (pieces p.text).foldl climb [] = p := by
    by_cases hp : p = []
    · subst hp
      decide
    · rw [pieces_text hp fun m hm => (h m hm).no_slash, List.foldl_cons,
        hclimb _ _ fun m hm => h m (List.mem_reverse.mp hm), List.reverse_reverse]
      simp [climb]
  rw [lexical, startsDoubled_text h, hpieces]

namespace Lexical

variable {doubled : Bool} {inner : List Name}

/-- The text of a lexical path is that of a place, perhaps behind one more slash. -/
theorem text_eq (l : Lexical) :
    l.text = (if l.doubled then ['/'] else []) ++ Place.text l.inner := by
  rw [text, Place.text, ofNames_eq]
  cases l.doubled <;> rfl

/-- **A lexical path leads through its names.** -/
theorem names_text (h : ∀ m ∈ inner, IsClean m) : names (text ⟨doubled, inner⟩) = inner.reverse := by
  rw [text_eq]
  cases doubled with
  | false => exact CompileJournal.names_text h
  | true => exact (names_slash (text_ne_nil inner)).trans (CompileJournal.names_text h)

theorem isAbsolute_text (l : Lexical) : isAbsolute l.text = true := by
  unfold text
  split <;> rfl

theorem no_nul_text (h : ∀ m ∈ inner, IsClean m) : Text.nul ∉ text ⟨doubled, inner⟩ := by
  intro hnul
  obtain ⟨m, hm, hnul⟩ := mem_of_mem_text (by decide) hnul
  exact (h m hm).no_nul hnul

/-- A directory above has the shorter path. -/
theorem byteCount_text_le (doubled : Bool) (name : Name) (outer : List Name) :
    Text.byteCount (text ⟨doubled, outer⟩) ≤ Text.byteCount (text ⟨doubled, name :: outer⟩) := by
  have hle : Text.byteCount (Place.text outer) ≤ Text.byteCount (Place.text (name :: outer)) := by
    rw [byteCount_text (List.cons_ne_nil name outer)]
    cases outer with
    | nil => exact Nat.le_add_left 1 _
    | cons second outer =>
      rw [byteCount_text (List.cons_ne_nil second outer)]
      exact Nat.le_add_left _ _
  rw [text_eq, text_eq, Text.byteCount_append, Text.byteCount_append]
  exact Nat.add_le_add_left hle _

end Lexical

end Path

namespace World

variable {w w' : World} {doubled : Bool} {inner outer : List Name} {name : Name} {x : Place}

/-! ## 2. Looking up a lexical path -/

theorem start_lexical (h : ∀ m ∈ inner, IsClean m) : w.start (Path.Lexical.text ⟨doubled, inner⟩) =
    if Disk.maxPath < Text.byteCount (Path.Lexical.text ⟨doubled, inner⟩)
    then .error .nameTooLong else .ok (⟨[], 0⟩, inner.reverse) := by
  have habs := Path.Lexical.isAbsolute_text ⟨doubled, inner⟩
  have hpath : ¬(Path.Lexical.text ⟨doubled, inner⟩ = [] ∨
      Text.nul ∈ Path.Lexical.text ⟨doubled, inner⟩) := by
    refine not_or.mpr ⟨fun hnil => ?_, Path.Lexical.no_nul_text h⟩
    rw [hnil] at habs
    exact absurd habs (by decide)
  rw [start, if_neg hpath, if_pos habs, Path.Lexical.names_text h]

/-- The lexical path leads to the place. -/
def EndsAt (w : World) (l : Path.Lexical) (x : Place) : Prop := w.find l.text = .ok ⟨x, 0⟩

theorem endsAt_iff (h : ∀ m ∈ inner, IsClean m) : w.EndsAt ⟨doubled, inner⟩ x ↔
    Text.byteCount (Path.Lexical.text ⟨doubled, inner⟩) ≤ Disk.maxPath ∧
      w.disk.find [] inner.reverse = .ok x := by
  rw [EndsAt, find, start_lexical h]
  by_cases hlong : Disk.maxPath < Text.byteCount (Path.Lexical.text ⟨doubled, inner⟩)
  · simp [if_pos hlong, Nat.not_le.mpr hlong]
  · rw [if_neg hlong]
    simp only [findFrom, if_true]
    cases w.disk.find [] inner.reverse <;> simp [Except.map, Nat.le_of_not_lt hlong]

theorem exists_lexical_iff {l : Path.Lexical} : w.exists? l.text = true ↔ ∃ x, w.EndsAt l x := by
  unfold exists? EndsAt
  cases hfind : w.find l.text with
  | error e => simp [Except.toBool]
  | ok s =>
    have hlost := find_lost (.inl (Path.Lexical.isAbsolute_text l)) hfind
    obtain ⟨p, lost⟩ := s
    obtain rfl : lost = 0 := hlost
    simp [Except.toBool]

theorem isDirectory_lexical_iff {l : Path.Lexical} : w.isDirectory l.text = true ↔
    ∃ x, w.EndsAt l x ∧ w.disk.entryAt x = some .directory := by
  unfold isDirectory entry? EndsAt
  cases hfind : w.find l.text with
  | error e => simp
  | ok s =>
    have hlost := find_lost (.inl (Path.Lexical.isAbsolute_text l)) hfind
    obtain ⟨p, lost⟩ := s
    obtain rfl : lost = 0 := hlost
    simp [entryAt]

theorem endsAt_unique {l : Path.Lexical} {y : Place} (h : w.EndsAt l x) (h' : w.EndsAt l y) :
    x = y := by
  rw [EndsAt, h, Except.ok.injEq, Spot.mk.injEq] at h'
  exact h'.1

/-- Names that lead to the place of a last name lead to its directory before. -/
theorem leads_last {d : Disk} {k : Nat} (hname : IsClean name)
    (h : d.Leads k [] (outer.reverse ++ [name]) x) : ∃ i ≤ k, ∃ q,
      d.Leads i [] outer.reverse q ∧ d.entryAt q = some .directory ∧
        Text.byteCount name ≤ Disk.maxName ∧ d.entryAt (name :: q) ≠ none := by
  obtain ⟨i, j, q, hfirst, hlast, rfl⟩ := h.split rfl
  refine ⟨i, Nat.le_add_right i j, q, hfirst, ?_⟩
  cases hlast with
  | stay _ hstay => exact (hstay.elim hname.ne_nil hname.ne_here).elim
  | above => exact (hname.ne_above rfl).elim
  | down hdir _ hshort he => exact ⟨hdir, hshort, by simp [he]⟩
  | follow hdir _ hshort he => exact ⟨hdir, hshort, by simp [he]⟩

theorem endsAt_cons (h : ∀ m ∈ name :: outer, IsClean m)
    (hx : w.EndsAt ⟨doubled, name :: outer⟩ x) : ∃ q, w.EndsAt ⟨doubled, outer⟩ q ∧
      w.disk.entryAt q = some .directory ∧ Text.byteCount name ≤ Disk.maxName ∧
        w.disk.entryAt (name :: q) ≠ none := by
  obtain ⟨hshort, hfind⟩ := (endsAt_iff h).mp hx
  rw [List.reverse_cons] at hfind
  obtain ⟨k, hk, hleads⟩ := Disk.find_eq_ok_iff.mp hfind
  obtain ⟨i, hi, q, hfirst, hrest⟩ := leads_last (h name List.mem_cons_self) hleads
  refine ⟨q, (endsAt_iff fun m hm => h m (List.mem_cons_of_mem _ hm)).mpr ⟨?_, ?_⟩, hrest⟩
  · exact Nat.le_trans (Path.Lexical.byteCount_text_le doubled name outer) hshort
  · exact Disk.find_eq_ok_iff.mpr ⟨i, Nat.le_trans hi hk, hfirst⟩

/-- **What leads somewhere leads through directories.** -/
theorem endsAt_above (h : ∀ m ∈ inner, IsClean m) (hx : w.EndsAt ⟨doubled, inner⟩ x)
    (houter : outer <:+ inner) (hne : outer ≠ inner) :
    ∃ q, w.EndsAt ⟨doubled, outer⟩ q ∧ w.disk.entryAt q = some .directory := by
  induction inner generalizing x with
  | nil => exact absurd (List.suffix_nil.mp houter) hne
  | cons name inner ih =>
    obtain ⟨q, hq, hdir, -⟩ := endsAt_cons h hx
    have hinner : ∀ m ∈ inner, IsClean m := fun m hm => h m (List.mem_cons_of_mem _ hm)
    rcases List.suffix_cons_iff.mp houter with heq | hsuffix
    · exact absurd heq hne
    · by_cases heq : outer = inner
      · exact ⟨q, heq ▸ hq, hdir⟩
      · exact ih hinner hq hsuffix heq

/-- A lexical path leads to the same place in a world that has grown. -/
theorem EndsAt.grow {l : Path.Lexical} (h : w.EndsAt l x) (hgrows : w.Grows w') :
    w'.EndsAt l x :=
  find_kept hgrows.cwd h fun _ _ he _ => hgrows.kept he

/-- From a directory a lexical path leads on to what lies there. -/
theorem EndsAt.down {e : Entry} (h : ∀ m ∈ name :: outer, IsClean m)
    (hx : w.EndsAt ⟨doubled, outer⟩ x) (hdir : w.disk.entryAt x = some .directory)
    (hpath : Text.byteCount (Path.Lexical.text ⟨doubled, name :: outer⟩) ≤ Disk.maxPath)
    (hshort : Text.byteCount name ≤ Disk.maxName) (he : w.disk.entryAt (name :: x) = some e)
    (hlink : ∀ target, e ≠ .link target) : w.EndsAt ⟨doubled, name :: outer⟩ (name :: x) := by
  have hname := h name List.mem_cons_self
  obtain ⟨-, hfind⟩ := (endsAt_iff fun m hm => h m (List.mem_cons_of_mem _ hm)).mp hx
  obtain ⟨k, hk, hleads⟩ := Disk.find_eq_ok_iff.mp hfind
  refine (endsAt_iff h).mpr ⟨hpath, ?_⟩
  rw [List.reverse_cons]
  exact Disk.find_eq_ok_iff.mpr ⟨k, hk, hleads.append
    (.down hdir ⟨hname.ne_nil, hname.ne_here, hname.ne_above⟩ hshort he hlink (.arrived _))⟩

/-! ## 3. Making one directory -/

theorem splitLast_concat {front : List Name} (hname : IsClean name) :
    Disk.splitLast (front ++ [name]) = some (front, name) := by
  simp [Disk.splitLast, hname.ne_nil, hname.ne_here, hname.ne_above]

/-- What cannot be made is reported with the path that was asked for. -/
theorem makeEntryAt_reports {path : Text} {e : Entry} {f : Failure} (hnul : Text.nul ∉ path)
    (h : w.makeEntryAt path e = .error f) : ∃ reason, f = .system reason (some path) := by
  rw [makeEntryAt, if_neg hnul] at h
  repeat' split at h
  all_goals cases h
  all_goals exact ⟨_, rfl⟩

/-- The root is always there. -/
theorem makeEntryAt_root (doubled : Bool) (e : Entry) :
    w.makeEntryAt (Path.Lexical.text ⟨doubled, []⟩) e =
      .error (.system .exists (some (Path.Lexical.text ⟨doubled, []⟩))) := by
  have hclean : ∀ m ∈ ([] : List Name), IsClean m := by simp
  have hshort : ¬Disk.maxPath < Text.byteCount (Path.Lexical.text ⟨doubled, []⟩) := by
    cases doubled <;> decide
  rw [makeEntryAt, if_neg (Path.Lexical.no_nul_text hclean), start_lexical hclean, if_neg hshort]
  rfl

theorem makeEntryAt_lexical (h : ∀ m ∈ name :: outer, IsClean m) (e : Entry) :
    w.makeEntryAt (Path.Lexical.text ⟨doubled, name :: outer⟩) e =
      if Disk.maxPath < Text.byteCount (Path.Lexical.text ⟨doubled, name :: outer⟩)
      then .error (.system .nameTooLong (some (Path.Lexical.text ⟨doubled, name :: outer⟩)))
      else match w.disk.findLast [] outer.reverse name with
        | .error reason =>
          .error (.system reason (some (Path.Lexical.text ⟨doubled, name :: outer⟩)))
        | .ok p =>
          if w.disk.entryAt p = none then .ok (w.withDisk (w.disk.set p e), p)
          else .error (.system .exists (some (Path.Lexical.text ⟨doubled, name :: outer⟩))) := by
  have hfilter : (name :: outer).reverse.filter (· ≠ []) = outer.reverse ++ [name] := by
    rw [List.reverse_cons, List.filter_eq_self]
    intro m hm
    simpa using (h m (by simpa [or_comm] using hm)).ne_nil
  rw [makeEntryAt, if_neg (Path.Lexical.no_nul_text h), start_lexical h]
  by_cases hlong : Disk.maxPath < Text.byteCount (Path.Lexical.text ⟨doubled, name :: outer⟩)
  · simp only [if_pos hlong]
  · have hsplit : Disk.splitLast (outer.reverse ++ [name]) = some (outer.reverse, name) :=
      splitLast_concat (h name List.mem_cons_self)
    cases hlast : w.disk.findLast [] outer.reverse name with
    | error reason => simp only [if_neg hlong, hfilter, hsplit, hlast]
    | ok p => simp only [if_neg hlong, hfilter, hsplit, hlast]

/-- The directory and the name of a path, where the path up to there leads to a directory. -/
theorem findLast_of_endsAt (h : ∀ m ∈ outer, IsClean m) (hx : w.EndsAt ⟨doubled, outer⟩ x)
    (hdir : w.disk.entryAt x = some .directory) (name : Name) :
    w.disk.findLast [] outer.reverse name =
      if Disk.maxName < Text.byteCount name then .error .nameTooLong else .ok (name :: x) := by
  rw [Disk.findLast, ((endsAt_iff h).mp hx).2]
  simp [hdir]

/-- Something is there already under a lexical path. -/
def IsTaken (w : World) (l : Path.Lexical) : Prop :=
  w.makeEntryAt l.text .directory = .error (.system .exists (some l.text))

/-- **Nothing is made where a path leads to something.** -/
theorem isTaken_of_endsAt (h : ∀ m ∈ inner, IsClean m) (hx : w.EndsAt ⟨doubled, inner⟩ x) :
    w.IsTaken ⟨doubled, inner⟩ := by
  cases inner with
  | nil => exact makeEntryAt_root doubled .directory
  | cons name outer =>
    obtain ⟨q, hq, hdir, hshort, hthere⟩ := endsAt_cons h hx
    rw [IsTaken, makeEntryAt_lexical h, if_neg (Nat.not_lt.mpr ((endsAt_iff h).mp hx).1),
      findLast_of_endsAt (fun m hm => h m (List.mem_cons_of_mem _ hm)) hq hdir,
      if_neg (Nat.not_lt.mpr hshort)]
    exact if_neg hthere

/-- A directory that was made for a lexical path: one of the paths through which that path goes
leads to the directory, and led nowhere before. -/
def IsMadeFor (w : World) (l : Path.Lexical) (w' : World) (x : Place) : Prop :=
  w'.disk.entryAt x = some .directory ∧ ∃ missing, missing <:+ l.inner ∧
    w.exists? (Path.Lexical.text ⟨l.doubled, missing⟩) = false ∧
      w'.EndsAt ⟨l.doubled, missing⟩ x

theorem makeEntryAt_new (hw : w.IsSound) (h : ∀ m ∈ inner, IsClean m)
    (hmake : w.makeEntryAt (Path.Lexical.text ⟨doubled, inner⟩) .directory = .ok (w', x)) :
    IsMadeFor w ⟨doubled, inner⟩ w' x ∧ w'.EndsAt ⟨doubled, inner⟩ x ∧ w.Grows w' ∧
      ∀ y, y ≠ x → w'.disk.entryAt y = w.disk.entryAt y := by
  have hmissing : w.exists? (Path.Lexical.text ⟨doubled, inner⟩) = false := by
    rw [← Bool.not_eq_true, exists_lexical_iff]
    rintro ⟨y, hy⟩
    have htaken := isTaken_of_endsAt h hy
    rw [IsTaken, hmake] at htaken
    exact absurd htaken (by simp)
  cases inner with
  | nil =>
    rw [makeEntryAt_root] at hmake
    exact absurd hmake (by simp)
  | cons name outer =>
  have houter : ∀ m ∈ outer, IsClean m := fun m hm => h m (List.mem_cons_of_mem _ hm)
  rw [makeEntryAt_lexical h] at hmake
  split at hmake
  · exact absurd hmake (by simp)
  next hpath =>
  split at hmake
  · exact absurd hmake (by simp)
  next p hp =>
  split at hmake
  · next hnone =>
    obtain ⟨rfl, rfl⟩ := Prod.mk.inj (Except.ok.inj hmake)
    obtain ⟨q, hfind, rfl, hdir, hshort⟩ := findLast_eq_ok hp
    have hset := Disk.entryAt_set w.disk (List.cons_ne_nil name q) .directory
    have hgrows : w.Grows (w.withDisk (w.disk.set (name :: q) .directory)) :=
      (makes_directory hw ⟨h name List.mem_cons_self, hshort⟩ hdir hnone).grows
    have hthere : (w.withDisk (w.disk.set (name :: q) .directory)).disk.entryAt (name :: q) =
        some .directory := by rw [withDisk, hset, if_pos rfl]
    have hq : w.EndsAt ⟨doubled, outer⟩ q := by
      refine (endsAt_iff houter).mpr ⟨?_, hfind⟩
      exact Nat.le_trans (Path.Lexical.byteCount_text_le ..) (Nat.le_of_not_lt hpath)
    have hleads := (hq.grow hgrows).down h (hgrows.kept hdir) (Nat.le_of_not_lt hpath) hshort hthere
      (by simp)
    refine ⟨⟨hthere, name :: outer, List.suffix_refl _, hmissing, hleads⟩, hleads, hgrows, ?_⟩
    intro y hy
    rw [withDisk, hset, if_neg hy]
  · exact absurd hmake (by simp)

/-! ## 4. Making the missing ones -/

/-- Why there is no directory at a lexical path: it is itself taken by something else, or it or one
above it cannot be made, and what is above that one is taken. -/
structure Refuses (w : World) (l : Path.Lexical) (refused : List Name) (reason : Errno) : Prop where
  above : refused <:+ l.inner
  fails : w.makeEntryAt (Path.Lexical.text ⟨l.doubled, refused⟩) .directory =
    .error (.system reason (some (Path.Lexical.text ⟨l.doubled, refused⟩)))
  missing : w.isDirectory (Path.Lexical.text ⟨l.doubled, refused⟩) = false
  taken : ∀ outer, outer <:+ refused → outer ≠ refused → w.IsTaken ⟨l.doubled, outer⟩
  whole : reason = .exists → refused = l.inner

/-- What the maker of the directory at a lexical path leaves. -/
structure Builds (w : World) (l : Path.Lexical) (r : World × Except Failure (Option Place)) :
    Prop where
  grows : w.Grows r.1
  new : ∀ {x}, w.disk.entryAt x = none → r.1.disk.entryAt x ≠ none → IsMadeFor w l r.1 x
  done : ∀ {made}, r.2 = .ok made → ∃ x, r.1.EndsAt l x ∧
    r.1.disk.entryAt x = some .directory ∧ ∀ p, made = some p → p = x
  failed : ∀ {e}, r.2 = .error e → ∃ refused reason, Refuses r.1 l refused reason ∧
    e = .system reason (some (Path.Lexical.text ⟨l.doubled, refused⟩))

/-- One directory, where all above it is taken. -/
theorem ensureDirectory_builds (hw : w.IsSound) (h : ∀ m ∈ inner, IsClean m)
    (habove : ∀ outer, outer <:+ inner → outer ≠ inner → w.IsTaken ⟨doubled, outer⟩) :
    Builds w ⟨doubled, inner⟩ (w.ensureDirectory (Path.Lexical.text ⟨doubled, inner⟩)) := by
  have hstays : ∀ {x}, w.disk.entryAt x = none → w.disk.entryAt x ≠ none →
      IsMadeFor w ⟨doubled, inner⟩ w x := fun hnone hthere => absurd hnone hthere
  unfold ensureDirectory
  split
  · next w' p hmake =>
    obtain ⟨hmade, hleads, hgrows, helse⟩ := makeEntryAt_new hw h hmake
    refine ⟨hgrows, fun {x} hnone hthere => ?_, fun hok => ⟨p, hleads, hmade.1, ?_⟩,
      fun herror => absurd herror (by simp)⟩
    · by_cases hx : x = p
      · rw [hx]
        exact hmade
      · exact absurd ((helse x hx).trans hnone) hthere
    · rintro q rfl
      exact (Option.some.inj (Except.ok.inj hok)).symm
  · next reason about hmake =>
    obtain ⟨reason', heq⟩ := makeEntryAt_reports (Path.Lexical.no_nul_text h) hmake
    obtain ⟨rfl, rfl⟩ := Failure.system.inj heq
    split
    · next hdir =>
      obtain ⟨x, hx, hthere⟩ := isDirectory_lexical_iff.mp hdir
      refine ⟨.refl hw, hstays, fun hok => ⟨x, hx, hthere, ?_⟩, fun herror => absurd herror (by simp)⟩
      rintro q rfl
      exact absurd hok (by simp)
    · next hdir =>
      refine ⟨.refl hw, hstays, fun hok => absurd hok (by simp), fun herror => ?_⟩
      exact ⟨inner, reason, ⟨List.suffix_refl _, hmake, by simpa using hdir, habove, fun _ => rfl⟩,
        (Except.error.inj herror).symm⟩
  · next e hother hmake =>
    obtain ⟨reason, rfl⟩ := makeEntryAt_reports (Path.Lexical.no_nul_text h) hmake
    exact (hother reason _ rfl).elim

/-- Inside a directory that has just been made, the short way does the same. -/
theorem ensureInside_eq (h : ∀ m ∈ name :: outer, IsClean m) (hx : w.EndsAt ⟨doubled, outer⟩ x)
    (hdir : w.disk.entryAt x = some .directory) (hnone : w.disk.entryAt (name :: x) = none) :
    w.ensureInside x name (Path.Lexical.text ⟨doubled, name :: outer⟩) =
      w.ensureDirectory (Path.Lexical.text ⟨doubled, name :: outer⟩) := by
  have houter : ∀ m ∈ outer, IsClean m := fun m hm => h m (List.mem_cons_of_mem _ hm)
  have hmissing : ¬w.isDirectory (Path.Lexical.text ⟨doubled, name :: outer⟩) = true := by
    rw [isDirectory_lexical_iff]
    rintro ⟨y, hy, -⟩
    obtain ⟨q, hq, -, -, hthere⟩ := endsAt_cons h hy
    rw [endsAt_unique hq hx] at hthere
    exact hthere hnone
  rw [ensureInside, if_neg (Path.Lexical.no_nul_text h), ensureDirectory, makeEntryAt_lexical h,
    findLast_of_endsAt houter hx hdir]
  by_cases hpath : Disk.maxPath < Text.byteCount (Path.Lexical.text ⟨doubled, name :: outer⟩)
  · simp only [hpath, true_or, if_true, if_neg hmissing]
  by_cases hlong : Disk.maxName < Text.byteCount name
  · simp only [hpath, hlong, or_true, if_true, if_false, if_neg hmissing]
  · simp only [hpath, hlong, or_self, if_false, hnone, if_true]

theorem exists_grow (hgrows : w.Grows w') {l : Path.Lexical} (h : w'.exists? l.text = false) :
    w.exists? l.text = false := by
  rw [← Bool.not_eq_true, exists_lexical_iff] at h ⊢
  exact fun ⟨x, hx⟩ => h ⟨x, hx.grow hgrows⟩

/-- One more directory is made after those above it. -/
theorem Builds.inside {r r' : World × Except Failure (Option Place)}
    (hr : Builds w ⟨doubled, outer⟩ r) (hr' : Builds r.1 ⟨doubled, name :: outer⟩ r') :
    Builds w ⟨doubled, name :: outer⟩ r' where
  grows := hr.grows.trans hr'.grows
  new {x} hnone hthere := by
    by_cases hmade : r.1.disk.entryAt x = none
    · obtain ⟨hdir, missing, hsuffix, hmissing, hleads⟩ := hr'.new hmade hthere
      exact ⟨hdir, missing, hsuffix, exists_grow hr.grows hmissing, hleads⟩
    · obtain ⟨hdir, missing, hsuffix, hmissing, hleads⟩ := hr.new hnone hmade
      exact ⟨hr'.grows.kept hdir, missing, hsuffix.trans (List.suffix_cons _ _), hmissing,
        hleads.grow hr'.grows⟩
  done := hr'.done
  failed := hr'.failed

/-- Everything above a directory is taken. -/
theorem isTaken_above (h : ∀ m ∈ name :: outer, IsClean m) (hx : w.EndsAt ⟨doubled, outer⟩ x) :
    ∀ above, above <:+ name :: outer → above ≠ name :: outer → w.IsTaken ⟨doubled, above⟩ := by
  intro above hsuffix hne
  have houter : ∀ m ∈ outer, IsClean m := fun m hm => h m (List.mem_cons_of_mem _ hm)
  have hsuffix := (List.suffix_cons_iff.mp hsuffix).resolve_left hne
  obtain ⟨y, hy⟩ : ∃ y, w.EndsAt ⟨doubled, above⟩ y := by
    by_cases heq : above = outer
    · exact ⟨x, heq ▸ hx⟩
    · obtain ⟨y, hy, -⟩ := endsAt_above houter hx hsuffix heq
      exact ⟨y, hy⟩
  exact isTaken_of_endsAt (fun m hm => houter m (hsuffix.subset hm)) hy

/-- **What the maker of the missing directories leaves**: every new directory is one of those above
that were missing, and where it fails, it names one of them that cannot be made. -/
theorem makeMissing_builds (doubled : Bool) (inner : List Name) (h : ∀ m ∈ inner, IsClean m)
    (hw : w.IsSound) : Builds w ⟨doubled, inner⟩ (makeMissing doubled inner w) := by
  induction inner with
  | nil =>
    refine ensureDirectory_builds hw h fun outer houter hne => ?_
    exact absurd (List.suffix_nil.mp houter) hne
  | cons name outer ih =>
    have houter : ∀ m ∈ outer, IsClean m := fun m hm => h m (List.mem_cons_of_mem _ hm)
    have hbuilds := ih houter
    have hmakes := makeMissing_makes doubled outer (fun m hm _ => houter m hm) hw
    have hv := hbuilds.grows.sound hw
    simp only [makeMissing]
    split
    · next hthere =>
      obtain ⟨x, hx⟩ := exists_lexical_iff.mp hthere
      exact ensureDirectory_builds hw h (isTaken_above h hx)
    · split
      next v p hr =>
        rw [hr] at hbuilds hmakes hv
        obtain ⟨x, hx, hdir, hplace⟩ := hbuilds.done rfl
        obtain rfl := hplace p rfl
        rw [ensureInside_eq h hx hdir ((hmakes.made rfl).2 name)]
        exact hbuilds.inside (ensureDirectory_builds hv h (isTaken_above h hx))
      next v hr =>
        rw [hr] at hbuilds hv
        obtain ⟨x, hx, -⟩ := hbuilds.done rfl
        exact hbuilds.inside (ensureDirectory_builds hv h (isTaken_above h hx))
      next v about hr =>
        -- What is taken by something else is the whole path, so all above the next one is taken.
        rw [hr] at hbuilds hv
        obtain ⟨refused, reason, hrefuses, heq⟩ := hbuilds.failed rfl
        obtain ⟨rfl, -⟩ := Failure.system.inj heq
        obtain rfl := hrefuses.whole rfl
        refine hbuilds.inside (ensureDirectory_builds hv h fun above hsuffix hne => ?_)
        have hsuffix := (List.suffix_cons_iff.mp hsuffix).resolve_left hne
        by_cases heq : above = refused
        · exact heq ▸ hrefuses.fails
        · exact hrefuses.taken above hsuffix heq
      next v e hother hr =>
        rw [hr] at hbuilds
        refine ⟨hbuilds.grows, fun hnone hthere => ?_, fun hok => absurd hok (by simp),
          fun {f} herror => ?_⟩
        · obtain ⟨hdir, missing, hsuffix, hrest⟩ := hbuilds.new hnone hthere
          exact ⟨hdir, missing, hsuffix.trans (List.suffix_cons _ _), hrest⟩
        · obtain ⟨refused, reason, hrefuses, heq⟩ := hbuilds.failed rfl
          obtain rfl : e = f := Except.error.inj herror
          refine ⟨refused, reason, ⟨hrefuses.above.trans (List.suffix_cons _ _), hrefuses.fails,
            hrefuses.missing, hrefuses.taken, ?_⟩, heq⟩
          rintro rfl
          exact (hother _ heq).elim

/-! ## 5. The directories above a database -/

/-- What making the directories at a lexical path leaves. -/
structure MakesAbove (w : World) (l : Path.Lexical) (r : World × Except Failure Unit) : Prop where
  grows : w.Grows r.1
  contents : r.1.disk.contents = w.disk.contents
  new : ∀ {x}, w.disk.entryAt x = none → r.1.disk.entryAt x ≠ none → IsMadeFor w l r.1 x
  done : r.2 = .ok () → r.1.isDirectory l.text = true
  failed : ∀ {e}, r.2 = .error e →
    (e = .tooDeep ∧ r.1 = w ∧ maxMissingDepth < w.missingDepth l.doubled l.inner) ∨
      ∃ refused reason, Refuses r.1 l refused reason ∧
        e = .system reason (some (Path.Lexical.text ⟨l.doubled, refused⟩))

/-- **Making the directories above a database** makes nothing but missing ones, and if that fails,
it is because too many are missing or because one of them cannot be made. -/
theorem makeDirectories_above (l : Path.Lexical) (h : ∀ m ∈ l.inner, IsClean m) (hw : w.IsSound) :
    MakesAbove w l (w.makeDirectories l.doubled l.inner) := by
  have hgrows := makeDirectories_grows l.doubled (fun m hm _ => h m hm) hw
  have hcontents := makeDirectories_contents l.doubled (fun m hm _ => h m hm) hw
  have hbuilds := makeMissing_builds l.doubled l.inner h hw
  unfold makeDirectories at hgrows hcontents ⊢
  split
  · next hdeep =>
    refine ⟨.refl hw, rfl, fun hnone hthere => absurd hnone hthere, fun hok => absurd hok (by simp),
      fun herror => .inl ⟨(Except.error.inj herror).symm, rfl, hdeep⟩⟩
  · next hdeep =>
    rw [if_neg hdeep] at hgrows hcontents
    refine ⟨hgrows, hcontents, hbuilds.new, fun hok => ?_, fun herror => .inr ?_⟩
    · obtain ⟨made, hmade, -⟩ := map_eq_ok.mp hok
      obtain ⟨x, hx, hdir, -⟩ := hbuilds.done hmade
      exact isDirectory_lexical_iff.mpr ⟨x, hx, hdir⟩
    · exact hbuilds.failed (map_eq_error.mp herror)

theorem ensureDirectory_of_isTaken {l : Path.Lexical} (htaken : w.IsTaken l)
    (hdir : w.isDirectory l.text = true) : w.ensureDirectory l.text = (w, .ok none) := by
  rw [IsTaken] at htaken
  simp only [ensureDirectory, htaken, hdir, if_true]

/-- **Directories that are there are not made again.** -/
theorem makeDirectories_of_isDirectory {l : Path.Lexical} (h : ∀ m ∈ l.inner, IsClean m)
    (hdir : w.isDirectory l.text = true) : w.makeDirectories l.doubled l.inner = (w, .ok ()) := by
  obtain ⟨doubled, inner⟩ := l
  obtain ⟨x, hx, -⟩ := isDirectory_lexical_iff.mp hdir
  have hensure := ensureDirectory_of_isTaken (isTaken_of_endsAt h hx) hdir
  have hone : w.missingDepth doubled inner = 1 ∧
      makeMissing doubled inner w = (w, .ok none) := by
    cases inner with
    | nil => exact ⟨rfl, hensure⟩
    | cons name outer =>
      obtain ⟨q, hq, -⟩ := endsAt_cons h hx
      have hthere : w.exists? (Path.Lexical.text ⟨doubled, outer⟩) = true :=
        exists_lexical_iff.mpr ⟨q, hq⟩
      exact ⟨by rw [missingDepth, if_pos hthere], by rw [makeMissing, if_pos hthere, hensure]⟩
  simp only [makeDirectories, hone]
  rfl

/-- Below an empty root everything is missing. -/
theorem length_le_missingDepth (hempty : ∀ x, x ≠ [] → w.disk.entryAt x = none) (doubled : Bool)
    (h : ∀ m ∈ inner, IsClean m) : inner.length ≤ w.missingDepth doubled inner := by
  induction inner with
  | nil => exact Nat.zero_le 1
  | cons name outer ih =>
    have houter : ∀ m ∈ outer, IsClean m := fun m hm => h m (List.mem_cons_of_mem _ hm)
    rw [missingDepth]
    split
    · next hthere =>
      obtain ⟨x, hx⟩ := exists_lexical_iff.mp hthere
      cases outer with
      | nil => exact Nat.le_refl 1
      | cons second outer =>
        obtain ⟨q, -, -, -, hq⟩ := endsAt_cons houter hx
        exact absurd (hempty _ (List.cons_ne_nil second q)) hq
    · exact Nat.succ_le_succ (ih houter)

end World

end CompileJournal
