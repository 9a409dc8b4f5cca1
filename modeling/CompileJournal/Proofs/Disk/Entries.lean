import CompileJournal.Disk.Walk
import Mathlib.Tactic.Common

/-!
# What lies where after a change

The lemmas by which the rest of the theory looks at a disk: what lies at each place, and what
each file holds, after one of the small changes that a disk allows.  Nothing later unfolds the
list of entries.

A disk is a *tree* if every entry lies in a directory, under a name that can be a name, and if no
file is reached from two places.  Each change keeps that, under a condition that its callers
check.

* `entryAt_set`, `entryAt_remove`, `contentOf_setContent_self`, `contentOf_addContent_of_lt`;
* `Disk.IsTree`, and one lemma for each change.
-/

namespace CompileJournal

/-! ## 1. Entries -/

theorem Place.key_inj {p q : Place} : p.key = q.key ↔ p = q := by
  constructor
  · intro h
    exact (Prod.mk.inj h).2
  · rintro rfl
    rfl

namespace Disk

/-- Entries that are kept by their key alone are found as before or not at all. -/
theorem lookup_filter_fst {κ ε : Type} [BEq κ] [LawfulBEq κ] (l : List (κ × ε)) (keep : κ → Bool)
    (k : κ) :
    (l.filter fun e => keep e.1).lookup k = if keep k then l.lookup k else none := by
  induction l with
  | nil => simp
  | cons e l ih =>
    obtain ⟨k', e⟩ := e
    by_cases hk : k = k'
    · subst hk
      cases hkeep : keep k <;> simp [hkeep, ih]
    · have hne : (k == k') = false := by simpa using hk
      cases hkeep : keep k' <;> simp [hkeep, ih, List.lookup_cons, hne]

@[simp] theorem entryAt_root (d : Disk) : d.entryAt [] = some .directory := rfl

theorem entryAt_cons (d : Disk) (name : Name) (outer : Place) :
    d.entryAt (name :: outer) = d.entries.lookup (Place.key (name :: outer)) := rfl

/-- One place gets another entry and all others keep theirs. -/
theorem entryAt_set (d : Disk) {p : Place} (hp : p ≠ []) (e : Entry) (x : Place) :
    (d.set p e).entryAt x = if x = p then some e else d.entryAt x := by
  cases x with
  | nil => simp [hp.symm]
  | cons name outer =>
    have hlook : (d.set p e).entryAt (name :: outer) =
        ((p.key, e) :: d.entries.filter (·.1 ≠ p.key)).lookup (Place.key (name :: outer)) := rfl
    rw [hlook, List.lookup_cons]
    by_cases hx : name :: outer = p
    · rw [if_pos hx, hx, beq_self_eq_true]
    · have hkey : Place.key (name :: outer) ≠ p.key := fun h => hx (Place.key_inj.mp h)
      have hbeq : (Place.key (name :: outer) == p.key) = false := by simpa using hkey
      rw [if_neg hx, hbeq, entryAt_cons]
      exact (lookup_filter_fst d.entries (fun k => decide (k ≠ p.key)) _).trans
        (by rw [decide_eq_true hkey, if_pos rfl])

/-- What lies at a place or below it is gone, and all else stays. -/
theorem entryAt_remove (d : Disk) {p : Place} (hp : p ≠ []) (x : Place) :
    (d.remove p).entryAt x = if p.isSuffixOf x then none else d.entryAt x := by
  cases x with
  | nil =>
    have h : ¬p.isSuffixOf [] := fun h => hp (List.suffix_nil.mp (List.isSuffixOf_iff_suffix.mp h))
    rw [entryAt_root, if_neg h, entryAt_root]
  | cons name outer =>
    refine (lookup_filter_fst d.entries (fun k => !p.isSuffixOf k.2) _).trans ?_
    cases h : p.isSuffixOf (name :: outer) <;> simp [h, Place.key, entryAt_cons]

/-- No file comes to a place by a removal, wherever that was. -/
theorem file_of_remove {d : Disk} {p x : Place} {n : FileNumber}
    (h : (d.remove p).entryAt x = some (.file n)) : d.entryAt x = some (.file n) := by
  cases x with
  | nil => exact absurd h (by simp)
  | cons name outer =>
    rw [entryAt_cons] at h ⊢
    rw [remove, lookup_filter_fst d.entries (fun k => !p.isSuffixOf k.2)] at h
    split at h
    · exact h
    · exact absurd h (by simp)

/-- A file that lies somewhere after one entry was set lay there before, or it is that entry. -/
theorem file_of_set {d : Disk} {p x : Place} {e : Entry} {n : FileNumber}
    (h : (d.set p e).entryAt x = some (.file n)) :
    (x = p ∧ e = .file n) ∨ d.entryAt x = some (.file n) := by
  cases x with
  | nil => exact absurd h (by simp)
  | cons name outer =>
    rw [entryAt_cons] at h ⊢
    by_cases hx : name :: outer = p
    · subst hx
      rw [set, List.lookup_cons_self] at h
      exact .inl ⟨rfl, Option.some.inj h⟩
    · have hkey : Place.key (name :: outer) ≠ p.key := fun hkey => hx (Place.key_inj.mp hkey)
      have hbeq : (Place.key (name :: outer) == p.key) = false := by simpa using hkey
      rw [set, List.lookup_cons, hbeq,
        lookup_filter_fst d.entries (fun k => decide (k ≠ p.key))] at h
      simp only [decide_eq_true hkey, if_true] at h
      exact .inr h

@[simp] theorem entryAt_setContent (d : Disk) (n : FileNumber) (c : Content) (x : Place) :
    (d.setContent n c).entryAt x = d.entryAt x := by cases x <;> rfl

@[simp] theorem entryAt_addContent (d : Disk) (c : Content) (x : Place) :
    (d.addContent c).entryAt x = d.entryAt x := by cases x <;> rfl

/-! ## 2. Contents -/

@[simp] theorem contents_set (d : Disk) (p : Place) (e : Entry) :
    (d.set p e).contents = d.contents := rfl

@[simp] theorem contents_remove (d : Disk) (p : Place) : (d.remove p).contents = d.contents := rfl

@[simp] theorem contentOf_set (d : Disk) (p : Place) (e : Entry) (n : FileNumber) :
    (d.set p e).contentOf n = d.contentOf n := rfl

@[simp] theorem contentOf_remove (d : Disk) (p : Place) (n : FileNumber) :
    (d.remove p).contentOf n = d.contentOf n := rfl

@[simp] theorem length_setContent (d : Disk) (n : FileNumber) (c : Content) :
    (d.setContent n c).contents.length = d.contents.length := List.length_set

@[simp] theorem length_addContent (d : Disk) (c : Content) :
    (d.addContent c).contents.length = d.contents.length + 1 := by
  simp [addContent]

theorem contentOf_setContent_self (d : Disk) {n : FileNumber} (hn : n < d.contents.length)
    (c : Content) : (d.setContent n c).contentOf n = c := by
  simp [contentOf, setContent, hn]

theorem contentOf_setContent_ne (d : Disk) {n m : FileNumber} (h : m ≠ n) (c : Content) :
    (d.setContent n c).contentOf m = d.contentOf m := by
  simp [contentOf, setContent, h.symm]

theorem contentOf_addContent_ne (d : Disk) {n : FileNumber} (h : n ≠ d.nextNumber) (c : Content) :
    (d.addContent c).contentOf n = d.contentOf n := by
  rcases Nat.lt_or_gt_of_ne h with hlt | hgt
  · simp [contentOf, addContent, List.getElem?_append_left hlt]
  · have hfew : (d.contents ++ [c]).length ≤ n := by
      rw [List.length_append]
      exact hgt
    simp [contentOf, addContent, List.getElem?_eq_none hfew,
      List.getElem?_eq_none (Nat.le_of_lt hgt)]

theorem contentOf_addContent_of_lt (d : Disk) {n : FileNumber} (hn : n < d.contents.length)
    (c : Content) : (d.addContent c).contentOf n = d.contentOf n :=
  contentOf_addContent_ne d (Nat.ne_of_lt hn) c

/-! ## 3. Trees -/

/-- A name that can be written between two slashes of a path and stands for an entry. -/
structure IsClean (name : Name) : Prop where
  ne_nil : name ≠ []
  ne_here : name ≠ ['.']
  ne_above : name ≠ ['.', '.']
  no_slash : '/' ∉ name
  no_nul : Text.nul ∉ name

/-- A name that an entry can have. -/
structure IsName (name : Name) : Prop extends IsClean name where
  short : Text.byteCount name ≤ maxName

/-- What every disk is that a system can hold. -/
structure IsTree (d : Disk) : Prop where
  /-- An entry lies in a directory. -/
  parent : ∀ {name outer e}, d.entryAt (name :: outer) = some e →
    d.entryAt outer = some .directory
  name : ∀ {name outer e}, d.entryAt (name :: outer) = some e → IsName name
  /-- A file has a content. -/
  number : ∀ {p n}, d.entryAt p = some (.file n) → n < d.contents.length
  /-- A file lies at one place. -/
  unique : ∀ {p q n}, d.entryAt p = some (.file n) → d.entryAt q = some (.file n) → p = q
  target : ∀ {p t}, d.entryAt p = some (.link t) → Text.nul ∉ t

namespace IsTree

variable {d : Disk}

/-- All names of a place where something lies can be written. -/
theorem clean (hd : d.IsTree) {p : Place} {e : Entry} (hp : d.entryAt p = some e) :
    ∀ m ∈ p, IsClean m := by
  induction p generalizing e with
  | nil => simp
  | cons name outer ih =>
    intro m hm
    rcases List.mem_cons.mp hm with rfl | hm
    · exact (hd.name hp).toIsClean
    · exact ih (hd.parent hp) m hm

/-- Nothing lies under a name that is too long. -/
theorem nothing_long (hd : d.IsTree) {name : Name} (hlong : maxName < Text.byteCount name)
    (outer : Place) : d.entryAt (name :: outer) = none := by
  cases he : d.entryAt (name :: outer) with
  | none => rfl
  | some e => exact absurd (hd.name he).short (Nat.not_le_of_lt hlong)

/-- What is not a directory has nothing below it. -/
theorem nothing_below (hd : d.IsTree) {p x : Place} (hp : d.entryAt p ≠ some .directory)
    (hx : p <:+ x) (hne : x ≠ p) : d.entryAt x = none := by
  induction x with
  | nil => exact absurd (List.suffix_nil.mp hx).symm hne
  | cons name outer ih =>
    rcases List.suffix_cons_iff.mp hx with h | h
    · exact absurd h.symm hne
    · cases he : d.entryAt (name :: outer) with
      | none => rfl
      | some e =>
        exfalso
        have hdir := hd.parent he
        by_cases hout : outer = p
        · exact hp (hout ▸ hdir)
        · rw [ih h hout] at hdir
          exact absurd hdir (by simp)

/-- Removing something that is no directory takes away that entry alone. -/
theorem entryAt_remove_leaf (hd : d.IsTree) {p : Place} (hp : d.entryAt p ≠ some .directory)
    (x : Place) : (d.remove p).entryAt x = if x = p then none else d.entryAt x := by
  have hnil : p ≠ [] := by
    rintro rfl
    exact hp rfl
  rw [entryAt_remove d hnil]
  by_cases hx : x = p
  · subst hx
    simp
  · rw [if_neg hx]
    split
    · next hs => exact (hd.nothing_below hp (List.isSuffixOf_iff_suffix.mp hs) hx).symm
    · rfl

theorem remove_leaf (hd : d.IsTree) {p : Place} (hp : d.entryAt p ≠ some .directory) :
    (d.remove p).IsTree := by
  have hof : ∀ {x e}, (d.remove p).entryAt x = some e → x ≠ p ∧ d.entryAt x = some e := by
    intro x e h
    rw [hd.entryAt_remove_leaf hp] at h
    split at h
    · exact absurd h (by simp)
    · next hx => exact ⟨hx, h⟩
  refine ⟨fun h => ?_, fun h => hd.name (hof h).2, fun h => hd.number (hof h).2,
    fun h h' => hd.unique (hof h).2 (hof h').2, fun h => hd.target (hof h).2⟩
  have hdir := hd.parent (hof h).2
  rw [hd.entryAt_remove_leaf hp, if_neg, hdir]
  rintro rfl
  exact hp hdir

/-- Another content changes nothing about the tree. -/
theorem setContent (hd : d.IsTree) (n : FileNumber) (c : Content) : (d.setContent n c).IsTree := by
  refine ⟨fun h => ?_, fun h => ?_, fun h => ?_, fun h h' => ?_, fun h => ?_⟩
  · rw [entryAt_setContent] at h ⊢
    exact hd.parent h
  · rw [entryAt_setContent] at h
    exact hd.name h
  · rw [entryAt_setContent] at h
    rw [length_setContent]
    exact hd.number h
  · rw [entryAt_setContent] at h h'
    exact hd.unique h h'
  · rw [entryAt_setContent] at h
    exact hd.target h

theorem addContent (hd : d.IsTree) (c : Content) : (d.addContent c).IsTree := by
  refine ⟨fun h => ?_, fun h => ?_, fun h => ?_, fun h h' => ?_, fun h => ?_⟩
  · rw [entryAt_addContent] at h ⊢
    exact hd.parent h
  · rw [entryAt_addContent] at h
    exact hd.name h
  · rw [entryAt_addContent] at h
    rw [length_addContent]
    exact Nat.lt_succ_of_lt (hd.number h)
  · rw [entryAt_addContent] at h h'
    exact hd.unique h h'
  · rw [entryAt_addContent] at h
    exact hd.target h

/-- A new entry in a directory, under a name that can be a name, keeps a tree a tree. -/
theorem set (hd : d.IsTree) {name : Name} {outer : Place} {e : Entry} (hname : IsName name)
    (houter : d.entryAt outer = some .directory) (hnone : d.entryAt (name :: outer) = none)
    (hfile : ∀ n, e = .file n → n < d.contents.length ∧ ∀ q, d.entryAt q ≠ some (.file n))
    (hlink : ∀ t, e ≠ .link t) : (d.set (name :: outer) e).IsTree := by
  have hset := entryAt_set d (List.cons_ne_nil name outer) e
  have hne : ∀ {x}, d.entryAt x = some .directory → x ≠ name :: outer := by
    rintro x hx rfl
    rw [hnone] at hx
    exact absurd hx (by simp)
  refine ⟨fun {m o f} h => ?_, fun {m o f} h => ?_, fun {p n} h => ?_, fun {p q n} h h' => ?_,
    fun {p t} h => ?_⟩
  · rw [hset] at h ⊢
    have hdir : d.entryAt o = some .directory := by
      split at h
      · next hx =>
        rw [(List.cons.inj hx).2]
        exact houter
      · exact hd.parent h
    rw [if_neg (hne hdir), hdir]
  · rw [hset] at h
    split at h
    · next hx =>
      rw [(List.cons.inj hx).1]
      exact hname
    · exact hd.name h
  · rw [hset] at h
    split at h
    · exact (hfile n (Option.some.inj h)).1
    · exact hd.number h
  · rw [hset] at h h'
    split at h <;> split at h'
    · next hp hq => rw [hp, hq]
    · exact absurd h' ((hfile n (Option.some.inj h)).2 q)
    · exact absurd h ((hfile n (Option.some.inj h')).2 p)
    · exact hd.unique h h'
  · rw [hset] at h
    split at h
    · exact absurd (Option.some.inj h) (hlink t)
    · exact hd.target h

/-- No place leads to the file that comes next. -/
theorem entryAt_ne_next (hd : d.IsTree) (q : Place) : d.entryAt q ≠ some (.file d.nextNumber) :=
  fun h => Nat.lt_irrefl _ (hd.number h)

/-- A new file at a place where nothing lies keeps a tree a tree. -/
theorem set_file (hd : d.IsTree) {name : Name} {outer : Place} (hname : IsName name)
    (houter : d.entryAt outer = some .directory) (hnone : d.entryAt (name :: outer) = none)
    (c : Content) :
    ((d.set (name :: outer) (.file d.nextNumber)).addContent c).IsTree := by
  have hadd : (d.addContent c).IsTree := hd.addContent c
  have h : ((d.addContent c).set (name :: outer) (.file d.nextNumber)).IsTree := by
    refine hadd.set hname ?_ ?_ ?_ (by simp)
    · rw [entryAt_addContent, houter]
    · rw [entryAt_addContent, hnone]
    · rintro n ⟨⟩
      refine ⟨by simp [nextNumber], ?_⟩
      intro q
      rw [entryAt_addContent]
      exact hd.entryAt_ne_next q
  exact h

end IsTree

end Disk

end CompileJournal
