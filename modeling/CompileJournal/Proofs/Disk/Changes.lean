import CompileJournal.Proofs.Disk.Entries

/-!
# What a change leaves alone

Everything the program does to a disk is bounded by the same relation: `ChangesOnly touched
written d d'` says that `d'` is a tree again and differs from `d` at the touched places and in the
written files alone, that no directory has gone, and that nothing but files has come.  A file that
lay at a touched place may have been written too.  Directories are made where nothing lies, and a
change that makes some may touch all such places; by that it is told from the others.  The relation
composes, so each operation is bounded once, from the bounds of its parts.

* `ChangesOnly.refl`, `ChangesOnly.trans`, `ChangesOnly.mono`;
* one lemma for each change of a disk.
-/

namespace CompileJournal.Disk

/-- A disk and a later one that differ at the touched places and in the written files alone. -/
structure ChangesOnly (touched : Place → Prop) (written : FileNumber → Prop) (d d' : Disk) :
    Prop where
  tree : d'.IsTree
  elsewhere : ∀ {x}, ¬touched x → d'.entryAt x = d.entryAt x
  directory : ∀ {x}, d.entryAt x = some .directory → d'.entryAt x = some .directory
  /-- What is no file was there, or it is a directory that was made. -/
  other : ∀ {x e}, d'.entryAt x = some e → (∀ n, e ≠ .file n) →
    d.entryAt x = some e ∨ e = .directory ∧ ∀ y, d.entryAt y = none → touched y
  /-- A file is where it was, or it is new. -/
  file : ∀ {x n}, d'.entryAt x = some (.file n) →
    d.entryAt x = some (.file n) ∨ d.contents.length ≤ n
  content : ∀ {n}, n < d.contents.length → ¬written n →
    (∀ x, touched x → d.entryAt x ≠ some (.file n)) → d'.contentOf n = d.contentOf n
  length : d.contents.length ≤ d'.contents.length

namespace ChangesOnly

variable {touched : Place → Prop} {written : FileNumber → Prop} {d d' d'' : Disk}

/-! ## 1. Composition -/

theorem refl (hd : d.IsTree) : ChangesOnly touched written d d :=
  ⟨hd, fun _ => rfl, id, fun hx _ => .inl hx, .inl, fun _ _ _ => rfl, Nat.le_refl _⟩

theorem trans (h : ChangesOnly touched written d d') (h' : ChangesOnly touched written d' d'') :
    ChangesOnly touched written d d'' where
  tree := h'.tree
  elsewhere hx := (h'.elsewhere hx).trans (h.elsewhere hx)
  directory hx := h'.directory (h.directory hx)
  other hx hne := by
    rcases h'.other hx hne with hx | ⟨rfl, hfree⟩
    · exact h.other hx hne
    · refine .inr ⟨rfl, fun y hy => Classical.byContradiction fun ht => ht ?_⟩
      exact hfree y ((h.elsewhere ht).trans hy)
  file hx := by
    rcases h'.file hx with hx | hn
    · exact h.file hx
    · exact .inr (Nat.le_trans h.length hn)
  content {n} hn hw hx := by
    have hx' : ∀ x, touched x → d'.entryAt x ≠ some (.file n) := by
      intro x ht hfile
      rcases h.file hfile with hfile | hle
      · exact hx x ht hfile
      · exact Nat.not_lt_of_le hle hn
    rw [h'.content (Nat.lt_of_lt_of_le hn h.length) hw hx', h.content hn hw hx]
  length := Nat.le_trans h.length h'.length

theorem mono {touched' : Place → Prop} {written' : FileNumber → Prop}
    (h : ChangesOnly touched written d d') (ht : ∀ x, touched x → touched' x)
    (hw : ∀ n, written n → written' n) : ChangesOnly touched' written' d d' :=
  { h with
    elsewhere := fun hx => h.elsewhere fun h => hx (ht _ h)
    other := fun hx hne => (h.other hx hne).imp_right fun ⟨he, hfree⟩ =>
      ⟨he, fun y hy => ht y (hfree y hy)⟩
    content := fun hn hnw hx => h.content hn (fun h => hnw (hw _ h)) fun x h => hx x (ht x h) }

/-- No link has come. -/
theorem link (h : ChangesOnly touched written d d') {x : Place} {t : Text}
    (hx : d'.entryAt x = some (.link t)) : d.entryAt x = some (.link t) := by
  rcases h.other hx (by simp) with hx | ⟨he, -⟩
  · exact hx
  · exact absurd he (by simp)

/-- Nothing but files has come, unless everything free may be touched. -/
theorem came (h : ChangesOnly touched written d d') {y : Place} (hy : d.entryAt y = none)
    (hty : ¬touched y) {x : Place} {e : Entry} (hx : d'.entryAt x = some e)
    (hne : ∀ n, e ≠ .file n) : d.entryAt x = some e :=
  (h.other hx hne).resolve_right fun ⟨_, hfree⟩ => hty (hfree y hy)

/-- What lies at a place that was not touched, or is a directory, is still there. -/
theorem kept (h : ChangesOnly touched written d d') {x : Place} {e : Entry}
    (hx : d.entryAt x = some e) (hkeep : ¬touched x ∨ e = .directory) :
    d'.entryAt x = some e := by
  rcases hkeep with ht | rfl
  · rw [h.elsewhere ht, hx]
  · exact h.directory hx

/-- A file at a place that was not touched keeps its content. -/
theorem content_kept (h : ChangesOnly touched written d d') (hd : d.IsTree) {p : Place}
    {n : FileNumber} (hp : d.entryAt p = some (.file n)) (ht : ¬touched p) (hw : ¬written n) :
    d'.contentOf n = d.contentOf n := by
  refine h.content (hd.number hp) hw ?_
  intro x hx hfile
  rw [hd.unique hfile hp] at hx
  exact ht hx

/-- A change that has left every entry where it was has touched none, unless it was a file. -/
theorem still (h : ChangesOnly touched written d d') (hentry : ∀ x, d'.entryAt x = d.entryAt x)
    (hfile : ∀ x n, touched x → d.entryAt x ≠ some (.file n)) :
    ChangesOnly (fun _ => False) written d d' where
  tree := h.tree
  elsewhere _ := hentry _
  directory hx := (hentry _).trans hx
  other hx _ := .inl ((hentry _).symm.trans hx)
  file hx := .inl ((hentry _).symm.trans hx)
  content hn hw _ := h.content hn hw fun x hx => hfile x _ hx
  length := h.length

/-! ## 2. The changes of a disk -/

theorem remove (hd : d.IsTree) {p : Place} (hp : d.entryAt p ≠ some .directory)
    (ht : touched p) : ChangesOnly touched written d (d.remove p) := by
  have hentry := hd.entryAt_remove_leaf hp
  have hback : ∀ {x e}, (d.remove p).entryAt x = some e → d.entryAt x = some e := by
    intro x e hx
    rw [hentry] at hx
    split at hx
    · exact absurd hx (by simp)
    · exact hx
  refine ⟨hd.remove_leaf hp, fun {x} hx => ?_, fun {x} hx => ?_, fun hx _ => .inl (hback hx),
    fun hx => .inl (hback hx), fun _ _ _ => rfl, Nat.le_refl _⟩
  · rw [hentry, if_neg]
    rintro rfl
    exact hx ht
  · rw [hentry, if_neg, hx]
    rintro rfl
    exact hp hx

theorem setContent (hd : d.IsTree) {n : FileNumber} (c : Content)
    (hn : written n ∨ ∃ x, touched x ∧ d.entryAt x = some (.file n)) :
    ChangesOnly touched written d (d.setContent n c) := by
  refine ⟨hd.setContent n c, fun _ => entryAt_setContent .., fun hx => ?_, fun hx _ => ?_,
    fun hx => ?_, fun {m} hm hw hx => ?_, Nat.le_of_eq (length_setContent ..).symm⟩
  · rwa [entryAt_setContent]
  · rw [entryAt_setContent] at hx
    exact .inl hx
  · rw [entryAt_setContent] at hx
    exact .inl hx
  · refine contentOf_setContent_ne d (fun hmn => ?_) c
    subst hmn
    rcases hn with hn | ⟨x, ht, hfile⟩
    · exact hw hn
    · exact hx x ht hfile

theorem addContent (hd : d.IsTree) (c : Content) :
    ChangesOnly touched written d (d.addContent c) := by
  refine ⟨hd.addContent c, fun _ => entryAt_addContent .., fun hx => ?_, fun hx _ => ?_,
    fun hx => ?_, fun hm _ _ => contentOf_addContent_of_lt d hm c, ?_⟩
  · rwa [entryAt_addContent]
  · rw [entryAt_addContent] at hx
    exact .inl hx
  · rw [entryAt_addContent] at hx
    exact .inl hx
  · rw [length_addContent]
    exact Nat.le_succ _

/-- One more entry where nothing lay, and perhaps more files. -/
theorem add {p : Place} {e : Entry} (htree : d'.IsTree) (hp : d.entryAt p = none)
    (ht : touched p) (hentry : ∀ x, d'.entryAt x = if x = p then some e else d.entryAt x)
    (hcontents : d.contents <+: d'.contents) (hfile : ∀ n, e = .file n → d.contents.length ≤ n)
    (hother : (∀ n, e ≠ .file n) → e = .directory ∧ ∀ y, d.entryAt y = none → touched y) :
    ChangesOnly touched written d d' := by
  obtain ⟨more, hmore⟩ := hcontents
  refine ⟨htree, fun {x} hx => ?_, fun {x} hx => ?_, fun {x f} hx hne => ?_, fun {x n} hx => ?_,
    fun {n} hn _ _ => ?_, ?_⟩
  · rw [hentry, if_neg]
    rintro rfl
    exact hx ht
  · rw [hentry, if_neg, hx]
    rintro rfl
    rw [hp] at hx
    exact absurd hx (by simp)
  · rw [hentry] at hx
    split at hx
    · obtain rfl := Option.some.inj hx
      exact .inr (hother hne)
    · exact .inl hx
  · rw [hentry] at hx
    split at hx
    · exact .inr (hfile n (Option.some.inj hx))
    · exact .inl hx
  · rw [contentOf, contentOf, ← hmore, List.getElem?_append_left hn]
  · rw [← hmore, List.length_append]
    exact Nat.le_add_right _ _

/-- A new directory. -/
theorem setDirectory (hd : d.IsTree) {name : Name} {outer : Place} (hname : IsName name)
    (houter : d.entryAt outer = some .directory) (hnone : d.entryAt (name :: outer) = none)
    (ht : ∀ y, d.entryAt y = none → touched y) :
    ChangesOnly touched written d (d.set (name :: outer) .directory) :=
  add (hd.set hname houter hnone (by simp) (by simp)) hnone (ht _ hnone)
    (entryAt_set d (List.cons_ne_nil name outer) _) (List.prefix_refl _) (by simp)
    fun _ => ⟨rfl, ht⟩

/-- A new file. -/
theorem setFile (hd : d.IsTree) {name : Name} {outer : Place} (hname : IsName name)
    (houter : d.entryAt outer = some .directory) (hnone : d.entryAt (name :: outer) = none)
    (ht : touched (name :: outer)) (c : Content) :
    ChangesOnly touched written d
      ((d.set (name :: outer) (.file d.nextNumber)).addContent c) := by
  refine add (e := .file d.nextNumber) (hd.set_file hname houter hnone c) hnone ht (fun x => ?_)
    (List.prefix_append _ _) (fun n hn => ?_) (by simp)
  · rw [entryAt_addContent, entryAt_set d (List.cons_ne_nil name outer)]
  · rw [← Entry.file.inj hn]
    exact Nat.le_refl _

end ChangesOnly

end CompileJournal.Disk
