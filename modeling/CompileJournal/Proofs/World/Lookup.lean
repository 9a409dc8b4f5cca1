import CompileJournal.Proofs.Disk.RealPath
import CompileJournal.Proofs.World.Growth

/-!
# Paths that lead somewhere

A path that leads to something leads there in every world with the same current directory that
keeps the directories, the links and the thing itself.  A directory is always found under the text
of its own place, as long as that is short enough for a path.

* `find_kept`: lookups in two worlds;
* `SameTree`: worlds in which all lookups are alike;
* `find_text`, `changeDirectory_text`: the text of a place leads to it;
* `resolve_ok`, `resolve_of_find`: what is found can be resolved, and to what.
-/

namespace CompileJournal

namespace Path

theorem isAbsolute_append {p : Text} (h : isAbsolute p = true) (t : Text) :
    isAbsolute (p ++ t) = true := by
  cases p with
  | nil => exact absurd h (by decide)
  | cons c p => exact h

/-- A path seen from an absolute one is absolute. -/
theorem isAbsolute_join {base : Text} (h : isAbsolute base = true) (p : Text) :
    isAbsolute (join base p) = true := by
  unfold join
  split
  · assumption
  · split
    · exact isAbsolute_append h p
    · exact isAbsolute_append h ('/' :: p)

end Path

namespace World

variable {w w' : World} {path : Text} {q : Place}

/-! ## 1. Lookups in two worlds -/

theorem start_eq (h : w'.cwd = w.cwd) (path : Text) : w'.start path = w.start path := by
  rw [start, start, h]

/-- A path leads to the same place where all that its lookup meets is kept. -/
theorem find_kept (hcwd : w'.cwd = w.cwd) (h : w.find path = .ok ⟨q, 0⟩)
    (hkeep : w.disk.Keeps w'.disk q) : w'.find path = .ok ⟨q, 0⟩ := by
  unfold find at h ⊢
  rw [start_eq hcwd]
  cases hstart : w.start path with
  | error e =>
    rw [hstart] at h
    exact absurd h (by simp)
  | ok r =>
    obtain ⟨s, names⟩ := r
    rw [hstart] at h
    simp only [findFrom] at h ⊢
    split at h
    · next hlost =>
      rw [if_pos hlost]
      cases hfind : w.disk.find s.place names with
      | error e =>
        rw [hfind] at h
        exact absurd h (by simp [Except.map])
      | ok p =>
        rw [hfind] at h
        obtain rfl : p = q := congrArg Spot.place (Except.ok.inj h)
        rw [Disk.find_of_keeps hfind hkeep]
        rfl
    · next hlost => exact absurd (congrArg Spot.lost (Except.ok.inj h)) hlost

/-- Where a path leads to a regular file, there is one. -/
theorem isFile_iff : w.isFile path = true ↔
    ∃ q n, w.find path = .ok ⟨q, 0⟩ ∧ w.disk.entryAt q = some (.file n) := by
  unfold isFile entry?
  cases hfind : w.find path with
  | error e => simp
  | ok s =>
    obtain ⟨p, lost⟩ := s
    simp only [entryAt, Except.ok.injEq, Spot.mk.injEq]
    constructor
    · intro h
      by_cases hlost : lost = 0
      · subst hlost
        rw [if_pos rfl] at h
        split at h
        · next n hn => exact ⟨p, n, ⟨rfl, rfl⟩, hn⟩
        · exact absurd h (by simp)
      · rw [if_neg hlost] at h
        exact absurd h (by simp)
    · rintro ⟨q, n, ⟨rfl, rfl⟩, hn⟩
      rw [if_pos rfl, hn]

/-- What is found from an absolute directory can be resolved. -/
theorem resolve_ok {base : Text} {s : Spot} (hbase : Path.isAbsolute base = true)
    (h : w.find (Path.join base path) = .ok s) : ∃ file, w.resolve base path = .ok file := by
  have hexists : w.exists? (Path.join base path) = true := by
    rw [exists?, h]
    rfl
  refine ⟨Place.text (w.disk.realRoute Disk.maxLinks .root
    (Path.pieces (Path.join base path))).place, ?_⟩
  rw [resolve, if_pos hexists, realPath, if_pos (Path.isAbsolute_join hbase path)]

/-- An absolute path leads where its names lead from the root. -/
theorem leads_of_find (habs : Path.isAbsolute path = true) (h : w.find path = .ok ⟨q, 0⟩) :
    ∃ k ≤ Disk.maxLinks, w.disk.Leads k [] (Path.names path) q := by
  unfold find at h
  cases hstart : w.start path with
  | error e =>
    rw [hstart] at h
    exact absurd h (by simp)
  | ok r =>
    have hr : r = (⟨[], 0⟩, Path.names path) := by
      rw [start, if_pos habs] at hstart
      split at hstart
      · exact absurd hstart (by simp)
      split at hstart
      · exact absurd hstart (by simp)
      · exact (Except.ok.inj hstart).symm
    rw [hstart, hr] at h
    simp only [findFrom, if_true] at h
    cases hfind : w.disk.find [] (Path.names path) with
    | error e =>
      rw [hfind] at h
      exact absurd h (by simp [Except.map])
    | ok p =>
      rw [hfind] at h
      obtain rfl : p = q := congrArg Spot.place (Except.ok.inj h)
      exact Disk.find_eq_ok_iff.mp hfind

/-- No lookup from the root, or from a directory that is still there, ends in a removed one. -/
theorem find_lost {s : Spot} (hstart : Path.isAbsolute path = true ∨ w.cwd.lost = 0)
    (h : w.find path = .ok s) : s.lost = 0 := by
  unfold find at h
  cases hs : w.start path with
  | error e =>
    rw [hs] at h
    exact absurd h (by simp)
  | ok r =>
  obtain ⟨first, names⟩ := r
  have hfirst : first.lost = 0 := by
    unfold start at hs
    split at hs
    · exact absurd hs (by simp)
    split at hs
    · exact absurd hs (by simp)
    split at hs
    · obtain ⟨rfl, -⟩ := Prod.mk.inj (Except.ok.inj hs)
      rfl
    next habs =>
    have hlost := hstart.resolve_left habs
    unfold Spot.climb at hs
    split at hs
    · obtain ⟨rfl, -⟩ := Prod.mk.inj (Except.ok.inj hs)
      exact hlost
    · rw [if_pos hlost] at hs
      obtain ⟨rfl, -⟩ := Prod.mk.inj (Except.ok.inj hs)
      exact hlost
  rw [hs] at h
  simp only [findFrom, hfirst, if_true] at h
  cases hfind : w.disk.find first.place names with
  | error e =>
    rw [hfind] at h
    exact absurd h (by simp [Except.map])
  | ok p =>
    rw [hfind] at h
    exact (congrArg Spot.lost (Except.ok.inj h)).symm

/-- What an absolute path leads to is there, and it is no link. -/
theorem exists_of_find (hw : w.IsSound) (habs : Path.isAbsolute path = true)
    (h : w.find path = .ok ⟨q, 0⟩) :
    ∃ e, w.disk.entryAt q = some e ∧ ∀ t, e ≠ .link t := by
  obtain ⟨k, -, hleads⟩ := leads_of_find habs h
  exact hleads.arrives hw.tree ⟨.directory, rfl, by simp⟩

/-- **What is found is resolved to the text of its place**, however it is spelled. -/
theorem resolve_of_find (hlinks : w.disk.HasShortLinks) {base : Text}
    (habs : Path.isAbsolute (Path.join base path) = true)
    (h : w.find (Path.join base path) = .ok ⟨q, 0⟩) : w.resolve base path = .ok q.text := by
  obtain ⟨k, hk, hleads⟩ := leads_of_find habs h
  have hroute := Disk.realRoute_of_leads hlinks hleads hk
  have hexists : w.exists? (Path.join base path) = true := by
    rw [exists?, h]
    rfl
  rw [resolve, if_pos hexists, realPath, if_pos habs]
  simp only [Disk.realRoute_pieces]
  have hroot : Route.root = Route.real [] := rfl
  rw [hroot, hroute]
  rfl

theorem resolve_text (hlinks : w.disk.HasShortLinks) {base : Text}
    (hbase : Path.isAbsolute base = true) (h : w.find (Path.join base path) = .ok ⟨q, 0⟩) :
    w.resolve base path = .ok q.text :=
  resolve_of_find hlinks (Path.isAbsolute_join hbase path) h

/-- A path has the same real form in two worlds with the same links. -/
theorem realPath_eq (hcwd : w'.cwd = w.cwd) (hlinks : w.disk.SameLinks w'.disk) (path : Text) :
    w'.realPath path = w.realPath path := by
  simp only [realPath, currentDirectory, hcwd, hlinks.realRoute_eq]

theorem realPath_of_resolve {base file : Text} (h : w.resolve base path = .ok file) :
    w.realPath (Path.join base path) = .ok file := by
  unfold resolve at h
  split at h
  · exact h
  · exact absurd h (by simp)

/-- What is resolved is found. -/
theorem find_of_resolve {base file : Text} (h : w.resolve base path = .ok file) :
    ∃ s, w.find (Path.join base path) = .ok s := by
  unfold resolve exists? at h
  cases hfind : w.find (Path.join base path) with
  | ok s => exact ⟨s, rfl⟩
  | error e =>
    rw [hfind] at h
    exact absurd h (by simp [Except.toBool])

/-- What is found in one world and resolved in another one is resolved alike. -/
theorem resolve_eq (hcwd : w'.cwd = w.cwd) (hlinks : w.disk.SameLinks w'.disk) {base file : Text}
    (hfind : w.exists? (Path.join base path) = true) (h : w'.resolve base path = .ok file) :
    w.resolve base path = .ok file := by
  rw [resolve, if_pos hfind, ← realPath_eq hcwd hlinks]
  exact realPath_of_resolve h

/-- Two worlds in which the same lies at all places, seen from the same current directory. -/
structure SameTree (w w' : World) : Prop where
  entryAt : ∀ x, w'.disk.entryAt x = w.disk.entryAt x
  cwd : w'.cwd = w.cwd

namespace SameTree

theorem trans {v : World} (h : w.SameTree w') (h' : w'.SameTree v) : w.SameTree v :=
  ⟨fun x => (h'.entryAt x).trans (h.entryAt x), h'.cwd.trans h.cwd⟩

theorem symm (h : w.SameTree w') : w'.SameTree w :=
  ⟨fun x => (h.entryAt x).symm, h.cwd.symm⟩

/-- **Over an unchanged tree every path is resolved alike.** -/
theorem resolve_eq (h : w.SameTree w') (base path : Text) :
    w'.resolve base path = w.resolve base path := by
  have hfind : w'.find (Path.join base path) = w.find (Path.join base path) := by
    simp only [find, start_eq h.cwd, findFrom, Disk.find_congr h.entryAt]
  rw [resolve, resolve, exists?, exists?, hfind,
    realPath_eq h.cwd fun x t => by rw [h.entryAt]]

end SameTree

/-! ## 2. The text of a place -/

/-- **The text of a place leads to it**, unless a link lies there. -/
theorem find_text (hw : w.IsSound) {p : Place} {e : Entry} (he : w.disk.entryAt p = some e)
    (hlink : ∀ t, e ≠ .link t) (hshort : Text.byteCount p.text ≤ Disk.maxPath) :
    w.find p.text = .ok ⟨p, 0⟩ := by
  have hclean := hw.tree.clean he
  have hstart : w.start p.text = .ok (⟨[], 0⟩, p.reverse) := by
    have hnul : ¬(p.text = [] ∨ Text.nul ∈ p.text) :=
      not_or.mpr ⟨text_ne_nil p, no_nul_text fun m hm => (hclean m hm).no_nul⟩
    rw [start, if_neg hnul, if_neg (Nat.not_lt.mpr hshort), if_pos (isAbsolute_text p),
      names_text hclean]
  rw [find, hstart]
  simp only [findFrom, if_true, Disk.find_place hw.tree he hlink]
  rfl

/-- A directory can be entered under the text of its place. -/
theorem changeDirectory_text (hw : w.IsSound) {p : Place}
    (hdir : w.disk.entryAt p = some .directory) (hshort : Text.byteCount p.text ≤ Disk.maxPath) :
    w.changeDirectory p.text = .ok { w with cwd := ⟨p, 0⟩ } := by
  have hnul := no_nul_text fun m hm => (hw.tree.clean hdir m hm).no_nul
  rw [changeDirectory, if_neg hnul, find_text hw hdir (by simp) hshort]
  simp [entryAt, hdir]

end World

end CompileJournal
