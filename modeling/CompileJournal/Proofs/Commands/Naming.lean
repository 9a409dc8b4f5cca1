import CompileJournal.Proofs.Commands.Rerecording

/-!
# A file has one name

The journal knows a file by the text that its path is resolved to, and the same file may be given
by many paths: from other directories, through links, with `..` and doubled slashes.  So that text
has to say which file it is, no more and no less.

Two readings of a path have to agree for that.  The system looks the path up, name by name, with
every link on the way replaced by its target; `ArrivesAt` says by which rules.  The real form of the
path is put together from its text, with links inside links resolved first.  Where the first one
arrives, the second one ends with the text of the place, and this is a path that leads through no
link any more.  It is resolved to itself, and no other place has it.

* `find_iff_arrivesAt`: a path is found where it leads, and nowhere else;
* `resolve_eq_error_iff`, `resolve_of_arrivesAt`: when a path is resolved, and to what;
* `isReal_text`: the text of a place is real;
* `resolve_identifies`: all of it.
-/

namespace CompileJournal

open CommandLine (HasShortPaths)

variable {w : World} {base path : Text} {p q : Place}

/-! ## 1. Where a path leads -/

namespace World

/-- The system's rules for a path that starts at the root.  It is not empty, holds no character
with code 0 and is not too long, and its names lead from the root to a place, one after the other:
each is looked for in an existing directory and is not too long itself, `..` leads to the directory
above, a link is replaced by its target, and no more links are followed than one lookup allows. -/
structure ArrivesAt (w : World) (path : Text) (q : Place) : Prop where
  ne_nil : path ≠ []
  no_nul : Text.nul ∉ path
  short : Text.byteCount path ≤ Disk.maxPath
  leads : ∃ k ≤ Disk.maxLinks, w.disk.Leads k [] (Path.names path) q

theorem start_of_isAbsolute (habs : Path.isAbsolute path = true) {r : Spot × List Name} :
    w.start path = .ok r ↔ (path ≠ [] ∧ Text.nul ∉ path ∧ Text.byteCount path ≤ Disk.maxPath) ∧
      r = (⟨[], 0⟩, Path.names path) := by
  rw [start, if_pos habs]
  split
  · next h => exact ⟨fun h => absurd h (by simp), fun hr => absurd h (not_or.mpr ⟨hr.1.1, hr.1.2.1⟩)⟩
  next h =>
  split
  · next hlong =>
    exact ⟨fun h => absurd h (by simp), fun hr => absurd hr.1.2.2 (Nat.not_le_of_lt hlong)⟩
  next hshort =>
  obtain ⟨hnil, hnul⟩ := not_or.mp h
  rw [Except.ok.injEq, eq_comm]
  exact ⟨fun hr => ⟨⟨hnil, hnul, Nat.le_of_not_lt hshort⟩, hr⟩, fun hr => hr.2⟩

/-- **A path from the root is found where it leads**, and nowhere else. -/
theorem find_iff_arrivesAt (habs : Path.isAbsolute path = true) :
    w.find path = .ok ⟨q, 0⟩ ↔ w.ArrivesAt path q := by
  constructor
  · intro h
    have hleads := leads_of_find habs h
    unfold find at h
    cases hstart : w.start path with
    | error e =>
      rw [hstart] at h
      exact absurd h (by simp)
    | ok r =>
      obtain ⟨⟨hnil, hnul, hshort⟩, -⟩ := (start_of_isAbsolute habs).mp hstart
      exact ⟨hnil, hnul, hshort, hleads⟩
  · intro h
    have hstart : w.start path = .ok (⟨[], 0⟩, Path.names path) :=
      (start_of_isAbsolute habs).mpr ⟨⟨h.ne_nil, h.no_nul, h.short⟩, rfl⟩
    rw [find, hstart]
    simp only [findFrom, if_true, Disk.find_eq_ok_iff.mpr h.leads]
    rfl

theorem ArrivesAt.unique (h : w.ArrivesAt path p) (h' : w.ArrivesAt path q) : p = q := by
  obtain ⟨_, -, hleads⟩ := h.leads
  obtain ⟨_, -, hleads'⟩ := h'.leads
  exact hleads.unique hleads'

theorem exists_iff_arrivesAt (habs : Path.isAbsolute path = true) :
    w.exists? path = true ↔ ∃ q, w.ArrivesAt path q := by
  unfold exists?
  constructor
  · intro h
    cases hfind : w.find path with
    | error e =>
      rw [hfind] at h
      exact absurd h (by simp [Except.toBool])
    | ok s =>
      have hlost := find_lost (.inl habs) hfind
      obtain ⟨q, lost⟩ := s
      obtain rfl : lost = 0 := hlost
      exact ⟨q, (find_iff_arrivesAt habs).mp hfind⟩
  · rintro ⟨q, h⟩
    rw [(find_iff_arrivesAt habs).mpr h]
    rfl

/-! ## 2. What a path is resolved to -/

/-- A path cannot be resolved if and only if it leads nowhere. -/
theorem resolve_eq_error_iff (hbase : Path.isAbsolute base = true) (path : Text) :
    w.resolve base path = .error (.unresolved path) ↔
      ¬∃ q, w.ArrivesAt (Path.join base path) q := by
  have habs := Path.isAbsolute_join hbase path
  rw [← exists_iff_arrivesAt habs, resolve]
  split
  · next h => simp [h, realPath, habs]
  · next h => simp [h]

theorem resolve_of_arrivesAt (hlinks : w.disk.HasShortLinks)
    (habs : Path.isAbsolute (Path.join base path) = true)
    (h : w.ArrivesAt (Path.join base path) q) : w.resolve base path = .ok q.text :=
  resolve_of_find hlinks habs ((find_iff_arrivesAt habs).mpr h)

/-- What is resolved leads somewhere, and is resolved to the text of that place. -/
theorem arrivesAt_of_resolve (hlinks : w.disk.HasShortLinks) (hbase : Path.isAbsolute base = true)
    {r : Text} (h : w.resolve base path = .ok r) :
    ∃ q, w.ArrivesAt (Path.join base path) q ∧ r = q.text := by
  have habs := Path.isAbsolute_join hbase path
  have hleads : ∃ q, w.ArrivesAt (Path.join base path) q := by
    by_contra hnone
    rw [(resolve_eq_error_iff hbase path).mpr hnone] at h
    exact absurd h (by simp)
  obtain ⟨q, hq⟩ := hleads
  exact ⟨q, hq, Except.ok.inj (h.symm.trans (resolve_of_arrivesAt hlinks habs hq))⟩

/-! ## 3. Real paths -/

/-- A path that is absolute, has no empty name, no `.` and no `..`, and leads through no link: there
is something at each of its prefixes, and it is none. -/
def IsReal (w : World) (path : Text) : Prop :=
  ∃ ns, path = Path.ofNames ns ∧ (∀ name ∈ ns, Disk.IsOrdinary name ∧ '/' ∉ name) ∧
    ∀ outer, outer <+: ns → ∃ e, w.disk.entryAt outer.reverse = some e ∧ ∀ t, e ≠ .link t

/-- **The text of a place is real**, unless a link lies there. -/
theorem isReal_text (hw : w.IsSound) {e : Entry} (he : w.disk.entryAt q = some e)
    (hlink : ∀ t, e ≠ .link t) : w.IsReal q.text := by
  refine ⟨q.reverse, rfl, fun name hname => ?_, fun outer houter => ?_⟩
  · have hclean := hw.tree.clean he name (List.mem_reverse.mp hname)
    exact ⟨⟨hclean.ne_nil, hclean.ne_here, hclean.ne_above⟩, hclean.no_slash⟩
  · have hsuffix : outer.reverse <:+ q := by
      rwa [← List.reverse_reverse q, List.reverse_suffix]
    by_cases hq : outer.reverse = q
    · exact ⟨e, hq ▸ he, hlink⟩
    · by_cases hdir : w.disk.entryAt outer.reverse = some .directory
      · exact ⟨_, hdir, by simp⟩
      · -- Nothing can lie below what is no directory, but the place itself does.
        rw [hw.tree.nothing_below hdir hsuffix (Ne.symm hq)] at he
        exact absurd he (by simp)

/-- The text of a place that a path leads to is real and leads there itself. -/
theorem ArrivesAt.text (hw : w.IsSound) (hshort : HasShortPaths w)
    (habs : Path.isAbsolute path = true) (h : w.ArrivesAt path q) :
    w.IsReal q.text ∧ w.ArrivesAt q.text q := by
  obtain ⟨e, he, hlink⟩ := exists_of_find hw habs ((find_iff_arrivesAt habs).mpr h)
  exact ⟨isReal_text hw he hlink,
    (find_iff_arrivesAt (isAbsolute_text q)).mp (find_text hw he hlink (hshort he))⟩

/-- Different places have different texts. -/
theorem ArrivesAt.text_inj (hw : w.IsSound) {path' : Text} (habs : Path.isAbsolute path = true)
    (habs' : Path.isAbsolute path' = true) (h : w.ArrivesAt path p) (h' : w.ArrivesAt path' q) :
    p.text = q.text ↔ p = q := by
  obtain ⟨e, he, -⟩ := exists_of_find hw habs ((find_iff_arrivesAt habs).mpr h)
  obtain ⟨e', he', -⟩ := exists_of_find hw habs' ((find_iff_arrivesAt habs').mpr h')
  refine ⟨CompileJournal.text_inj (hw.tree.clean he) (hw.tree.clean he'), ?_⟩
  rintro rfl
  rfl

/-! ## 4. Names and files -/

/-- **A resolved path says which file it is.**  Seen from an absolute directory, a path cannot be
resolved if and only if it leads nowhere.  Otherwise it is resolved to a real path that leads to the
same place.  So two paths are resolved to the same text if and only if they lead to the same place,
and a path that something was resolved to is resolved to itself, from every directory. -/
theorem resolve_identifies (hw : w.IsSound) (hshort : HasShortPaths w) :
    (∀ {base path}, Path.isAbsolute base = true →
      (w.resolve base path = .error (.unresolved path) ↔
        ¬∃ q, w.ArrivesAt (Path.join base path) q) ∧
      ∀ {q}, w.ArrivesAt (Path.join base path) q →
        ∃ r, w.resolve base path = .ok r ∧ w.IsReal r ∧ w.ArrivesAt r q) ∧
    (∀ {base path r base' path' r'}, Path.isAbsolute base = true →
      Path.isAbsolute base' = true → w.resolve base path = .ok r →
      w.resolve base' path' = .ok r' →
      (r = r' ↔ ∃ q, w.ArrivesAt (Path.join base path) q ∧ w.ArrivesAt (Path.join base' path') q)) ∧
    ∀ {base path r} (base'), Path.isAbsolute base = true → w.resolve base path = .ok r →
      w.resolve base' r = .ok r := by
  refine ⟨fun {base path} hbase => ⟨resolve_eq_error_iff hbase path, fun {q} hq => ?_⟩,
    fun {base path r base' path' r'} hbase hbase' hr hr' => ?_, fun {base path r} base' hbase hr => ?_⟩
  · have habs := Path.isAbsolute_join hbase path
    exact ⟨q.text, resolve_of_arrivesAt hshort.links habs hq, hq.text hw hshort habs⟩
  · obtain ⟨p, hp, rfl⟩ := arrivesAt_of_resolve hshort.links hbase hr
    obtain ⟨q, hq, rfl⟩ := arrivesAt_of_resolve hshort.links hbase' hr'
    rw [hp.text_inj hw (Path.isAbsolute_join hbase path) (Path.isAbsolute_join hbase' path') hq]
    constructor
    · rintro rfl
      exact ⟨p, hp, hq⟩
    · rintro ⟨m, hm, hm'⟩
      exact (hp.unique hm).trans (hm'.unique hq)
  · obtain ⟨q, hq, rfl⟩ := arrivesAt_of_resolve hshort.links hbase hr
    obtain ⟨-, hself⟩ := hq.text hw hshort (Path.isAbsolute_join hbase path)
    have hjoin : Path.join base' q.text = q.text := Path.join_of_isAbsolute (isAbsolute_text q) base'
    refine resolve_of_arrivesAt hshort.links ?_ ?_
    · rw [hjoin]
      exact isAbsolute_text q
    · rw [hjoin]
      exact hself

/-- A link and a doubled slash lead to one file, and a name that is missing leads nowhere. -/
theorem resolve_identifies_aliasWorld :
    (aliasWorld.IsSound ∧ HasShortPaths aliasWorld) ∧
      aliasWorld.resolve "/" "missing.c" = .error (.unresolved "missing.c") ∧
      aliasWorld.resolve "/" "alias.c" = .ok "/Makefile".toList ∧
      aliasWorld.resolve "/" ".//Makefile" = .ok "/Makefile".toList ∧
      (∃ q, aliasWorld.ArrivesAt "/alias.c" q ∧ aliasWorld.ArrivesAt "/.//Makefile" q) ∧
      aliasWorld.resolve "nowhere" "/Makefile" = .ok "/Makefile".toList := by
  have hshort : HasShortPaths aliasWorld := CommandLine.hasShortPaths_of_entries (by decide)
  obtain ⟨hresolve, hsame, hself⟩ := resolve_identifies aliasWorld_isSound hshort
  have hmissing : ¬∃ q, aliasWorld.ArrivesAt (Path.join "/" "missing.c") q := by
    rw [← exists_iff_arrivesAt (by decide)]
    decide
  have halias : aliasWorld.resolve "/" "alias.c" = .ok "/Makefile".toList := by decide
  have hslashes : aliasWorld.resolve "/" ".//Makefile" = .ok "/Makefile".toList := by
    decide
  exact ⟨⟨aliasWorld_isSound, hshort⟩, (hresolve rfl).1.mpr hmissing, halias, hslashes,
    (hsame rfl rfl halias hslashes).mp rfl, hself "nowhere" rfl halias⟩

end World

end CompileJournal
