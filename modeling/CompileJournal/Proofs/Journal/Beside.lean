import CompileJournal.Journal.Transaction
import CompileJournal.Proofs.Disk.Lookup
import CompileJournal.Proofs.World.Growth

/-!
# Work on the files beside a database

What an access does to the undo file, the log file and its index is bounded by `ChangesOnly`: it
touches the three places beside the database alone.  So the database itself stays where it is and
keeps its content, whichever of these steps an access takes.

* `Handle.IsBeside`: the three places;
* `Handle.IsNear`: the places of these names in any directory, for databases whose own directory has
  been moved or replaced;
* `Hosts.after`, `Hosts.content_eq`: the file of a handle under such changes;
* one bound for each operation on the files beside a database, and `entryAt_unlink`, which says
  what removing one of them leaves.
-/

namespace CompileJournal

open Disk (IsClean IsName)

/-! ## 1. The places beside a database -/

namespace Handle

/-- The places of the undo file, the log file and its index. -/
def IsBeside (h : Handle) (x : Place) : Prop :=
  h.undo = some x ∨ h.log = some x ∨ h.logIndex = some x

variable {h : Handle} {ending : Text} {x : Place}

theorem beside_eq_some (hx : h.beside ending = some x) :
    ∃ name outer, h.place = some (name :: outer) ∧ x = (name ++ ending) :: outer := by
  unfold beside at hx
  split at hx
  · next name outer hplace => exact ⟨name, outer, hplace, (Option.some.inj hx).symm⟩
  · exact absurd hx (by simp)

/-- The database does not lie beside itself. -/
theorem not_isBeside (hx : h.place = some x) : ¬h.IsBeside x := by
  have hne : ∀ ending : Text, ending ≠ [] → h.beside ending ≠ some x := by
    intro ending hending hbeside
    obtain ⟨name, outer, hplace, rfl⟩ := beside_eq_some hbeside
    rw [hplace, Option.some.injEq, List.cons.injEq] at hx
    exact hending (List.self_eq_append_right.mp hx.1)
  rintro (hundo | hlog | hindex)
  · exact hne _ (by decide) hundo
  · exact hne _ (by decide) hlog
  · exact hne _ (by decide) hindex

/-- Nothing lies beside a private database. -/
theorem not_isBeside_of_private (hplace : h.place = none) : ¬h.IsBeside x := by
  have hnone : ∀ ending, h.beside ending = none := by
    intro ending
    rw [beside, hplace]
  simp [IsBeside, undo, log, logIndex, hnone]

end Handle

/-- The place is one of those beside a database at the other place. -/
def LiesBeside (p other : Place) : Prop := Handle.IsBeside ⟨0, some other⟩ p

instance (p other : Place) : Decidable (LiesBeside p other) :=
  inferInstanceAs (Decidable (_ ∨ _ ∨ _))

theorem Handle.isBeside_iff {g : Handle} {p other : Place} (hg : g.place = some other) :
    g.IsBeside p ↔ LiesBeside p other := by
  obtain ⟨file, place⟩ := g
  subst hg
  exact Iff.rfl

namespace Handle

/-- A place under the name of a file beside the database, in whatever directory. -/
def IsNear (h : Handle) (x : Place) : Prop :=
  ∃ name outer inside, h.IsBeside (name :: outer) ∧ x = name :: inside

/-- The files beside the database have names that can be written. -/
def IsNamed (h : Handle) : Prop := ∀ name outer, h.IsBeside (name :: outer) → IsClean name

end Handle

/-- A name stays clean when an ending is put behind it. -/
theorem Disk.IsClean.append {name ending : Name} (h : IsClean name) (hlength : 2 < ending.length)
    (hslash : '/' ∉ ending) (hnul : Text.nul ∉ ending) : IsClean (name ++ ending) := by
  have hlong : ∀ {other : Name}, other.length ≤ 2 → name ++ ending ≠ other := by
    rintro other hother rfl
    rw [List.length_append] at hother
    omega
  refine ⟨hlong (by simp), hlong (by simp), hlong (by simp), ?_, ?_⟩
  · rw [List.mem_append]
    exact not_or.mpr ⟨h.no_slash, hslash⟩
  · rw [List.mem_append]
    exact not_or.mpr ⟨h.no_nul, hnul⟩

namespace World

variable {w w' w'' : World} {h : Handle} {touched : Place → Prop} {written : FileNumber → Prop}
  {x : Place}

/-- What is beside a database lies in the same directory, under a name that can be written. -/
theorem Hosts.isBeside (hh : w.Hosts h) (hw : w.IsSound) (hx : h.IsBeside x) :
    ∃ name outer, x = name :: outer ∧ IsClean name ∧ w.disk.entryAt outer = some .directory := by
  have hending : ∀ ending : Text, 2 < ending.length → '/' ∉ ending → Text.nul ∉ ending →
      h.beside ending = some x → ∃ name outer, x = name :: outer ∧ IsClean name ∧
        w.disk.entryAt outer = some .directory := by
    intro ending hlength hslash hnul hbeside
    obtain ⟨name, outer, hplace, rfl⟩ := Handle.beside_eq_some hbeside
    have hentry := hh.place hplace
    exact ⟨_, outer, rfl, (hw.tree.name hentry).toIsClean.append hlength hslash hnul,
      hw.tree.parent hentry⟩
  rcases hx with hundo | hlog | hindex
  · exact hending _ (by decide) (by decide) (by decide) hundo
  · exact hending _ (by decide) (by decide) (by decide) hlog
  · exact hending _ (by decide) (by decide) (by decide) hindex

/-- The files beside a database that lies where it was opened can be written. -/
theorem Hosts.isNamed (hh : w.Hosts h) (hw : w.IsSound) : h.IsNamed := by
  intro name outer hx
  obtain ⟨name', outer', heq, hclean, -⟩ := hh.isBeside hw hx
  rw [(List.cons.inj heq).1]
  exact hclean

/-- The file of a handle is still there after changes beside it. -/
theorem Hosts.after (hh : w.Hosts h) (hc : w.ChangesOnly h.IsBeside written w') : w'.Hosts h :=
  hh.elsewhere hc.disk Handle.not_isBeside

/-- **The file of a handle keeps its content under changes beside it.** -/
theorem Hosts.content_eq (hh : w.Hosts h) (hw : w.IsSound)
    (hc : w.ChangesOnly h.IsBeside (fun _ => False) w') : w'.content h = w.content h := by
  cases hplace : h.place with
  | none =>
    exact hc.disk.content hh.number id fun x hx => absurd hx (Handle.not_isBeside_of_private hplace)
  | some p => exact hc.disk.content_kept hw.tree (hh.place hplace) (Handle.not_isBeside hplace) id

/-! ## 2. One place -/

/-- The place of a name in a directory is looked at directly. -/
theorem lookPlace_eq (hw : w.IsSound) {name : Name} {outer : Place}
    (houter : w.disk.entryAt outer = some .directory) :
    w.lookPlace (name :: outer) = w.disk.entryAt (name :: outer) := by
  rw [lookPlace, Disk.findLast_place hw.tree houter]
  by_cases hlong : Disk.maxName < Text.byteCount name
  · rw [if_pos hlong, hw.tree.nothing_long hlong]
  · rw [if_neg hlong]

/-- Nothing below a removed leaf is lost, not even the current directory. -/
theorem removeAt_leaf (hw : w.IsSound) {p : Place} (hp : w.disk.entryAt p ≠ some .directory) :
    w.removeAt p = w.withDisk (w.disk.remove p) := by
  have hcwd : w.cwd.afterRemoval p = w.cwd := by
    unfold Spot.afterRemoval
    rw [if_neg]
    rintro ⟨-, hsuffix⟩
    have hbelow := List.isSuffixOf_iff_suffix.mp hsuffix
    by_cases hne : w.cwd.place = p
    · exact hp (hne ▸ hw.cwd)
    · have hnone := hw.tree.nothing_below hp hbelow hne
      rw [hw.cwd] at hnone
      exact absurd hnone (by simp)
  rw [removeAt, hcwd]
  rfl

/-- What the removal of a file or link leaves. -/
theorem unlink_eq (hw : w.IsSound) {name : Name} {outer : Place}
    (houter : w.disk.entryAt outer = some .directory) :
    w.unlink (name :: outer) =
      if Disk.maxName < Text.byteCount name ∨ w.disk.entryAt (name :: outer) = some .directory
      then w else w.withDisk (w.disk.remove (name :: outer)) := by
  rw [unlink, Disk.findLast_place hw.tree houter]
  by_cases hlong : Disk.maxName < Text.byteCount name
  · simp [hlong]
  · by_cases hdir : w.disk.entryAt (name :: outer) = some .directory
    · simp [hlong, hdir]
    · simp [hlong, hdir, removeAt_leaf hw hdir]

theorem unlink_bounded (hw : w.IsSound) (hh : w.Hosts h) (hx : h.IsBeside x) (ht : touched x) :
    w.ChangesOnly touched written (w.unlink x) := by
  obtain ⟨name, outer, rfl, -, houter⟩ := hh.isBeside hw hx
  rw [unlink_eq hw houter]
  split
  · exact .refl hw
  · next hleaf => exact ⟨.remove hw.tree (fun hdir => hleaf (.inr hdir)) ht, rfl⟩

/-- Removing a file or link beside a database takes away that entry alone. -/
theorem entryAt_unlink (hw : w.IsSound) (hh : w.Hosts h) (hx : h.IsBeside x) (y : Place) :
    (w.unlink x).disk.entryAt y =
      if y = x ∧ w.disk.entryAt x ≠ some .directory then none else w.disk.entryAt y := by
  obtain ⟨name, outer, rfl, -, houter⟩ := hh.isBeside hw hx
  rw [unlink_eq hw houter]
  by_cases hdir : w.disk.entryAt (name :: outer) = some .directory
  · simp [hdir]
  by_cases hlong : Disk.maxName < Text.byteCount name
  · rw [if_pos (.inl hlong)]
    split
    · next hy => rw [hy.1, hw.tree.nothing_long hlong]
    · rfl
  · rw [if_neg (not_or.mpr ⟨hlong, hdir⟩), withDisk, hw.tree.entryAt_remove_leaf hdir]
    simp [hdir]

theorem putFile_bounded (hw : w.IsSound) (hh : w.Hosts h) (hx : h.IsBeside x) (ht : touched x)
    (c : Content) : w.ChangesOnly touched written (w.putFile x c) := by
  obtain ⟨name, outer, rfl, hname, houter⟩ := hh.isBeside hw hx
  unfold putFile
  rw [lookPlace_eq hw houter]
  cases he : w.disk.entryAt (name :: outer) with
  | none =>
    simp only [Disk.findLast_place hw.tree houter]
    by_cases hlong : Disk.maxName < Text.byteCount name
    · simp only [if_pos hlong]
      exact .refl hw
    · simp only [if_neg hlong]
      exact ⟨.setFile hw.tree ⟨hname, Nat.le_of_not_lt hlong⟩ houter he ht c, rfl⟩
  | some e =>
    cases e with
    | file n => exact ⟨.setContent hw.tree c (.inr ⟨_, ht, he⟩), rfl⟩
    | directory | link _ | pipe => exact .refl hw

/-- A file that is put somewhere takes the place of nothing but a file. -/
theorem entryAt_putFile (hw : w.IsSound) (hh : w.Hosts h) (hx : h.IsBeside x) (c : Content)
    (y : Place) : (w.putFile x c).disk.entryAt y = w.disk.entryAt y ∨
      (y = x ∧ w.disk.entryAt x = none ∧
        (w.putFile x c).disk.entryAt y = some (.file w.disk.nextNumber)) := by
  obtain ⟨name, outer, rfl, -, houter⟩ := hh.isBeside hw hx
  unfold putFile
  rw [lookPlace_eq hw houter]
  cases he : w.disk.entryAt (name :: outer) with
  | none =>
    simp only [Disk.findLast_place hw.tree houter]
    by_cases hlong : Disk.maxName < Text.byteCount name
    · simp only [if_pos hlong]
      exact .inl trivial
    · simp only [if_neg hlong, withDisk, Disk.entryAt_addContent,
        Disk.entryAt_set _ (List.cons_ne_nil name outer)]
      by_cases hy : y = name :: outer
      · exact .inr ⟨hy, trivial, if_pos hy⟩
      · exact .inl (if_neg hy)
  | some e =>
    cases e with
    | file n => exact .inl (Disk.entryAt_setContent ..)
    | directory | link _ | pipe => exact .inl rfl

theorem putFile_kept (hw : w.IsSound) (hh : w.Hosts h) (hx : h.IsBeside x) (c : Content)
    {y : Place} {e : Entry} (hy : w.disk.entryAt y = some e) :
    (w.putFile x c).disk.entryAt y = some e := by
  rcases entryAt_putFile hw hh hx c y with hsame | ⟨rfl, hnone, -⟩
  · rw [hsame, hy]
  · rw [hnone] at hy
    exact absurd hy (by simp)

/-! ## 3. Wherever the database lies by now -/

/-- There is a place where nothing lies and that is not near a database. -/
theorem exists_far (hw : w.IsSound) (h : Handle) :
    ∃ x, w.disk.entryAt x = none ∧ ¬h.IsNear x := by
  refine ⟨[List.replicate 256 'a'], hw.tree.nothing_long (by decide +kernel) [], ?_⟩
  rintro ⟨name, outer, inside, hbeside, heq⟩
  obtain ⟨rfl, -⟩ := List.cons.inj heq
  -- All letters of the long name are the same, and no ending has this letter last.
  have hending : ∀ {ending : Text} {c : Char}, c ≠ 'a' → ending.getLast? = some c →
      h.beside ending ≠ some (List.replicate 256 'a' :: outer) := by
    intro ending c hc hlast hx
    obtain ⟨base, outer', -, heq⟩ := Handle.beside_eq_some hx
    have hsame := congrArg List.getLast? (List.cons.inj heq).1
    rw [List.getLast?_append, hlast] at hsame
    exact hc (Option.some.inj hsame).symm
  rcases hbeside with hx | hx | hx
  · exact hending (c := 'l') (by decide) (by decide) hx
  · exact hending (c := 'l') (by decide) (by decide) hx
  · exact hending (c := 'm') (by decide) (by decide) hx

theorem unlink_near (hw : w.IsSound) (hx : h.IsBeside x) :
    w.ChangesOnly h.IsNear written (w.unlink x) := by
  cases x with
  | nil => exact .refl hw
  | cons name outer =>
    rw [unlink]
    cases hq : w.disk.findLast [] outer.reverse name with
    | error e => exact .refl hw
    | ok q =>
    obtain ⟨inside, -, rfl, -⟩ := findLast_eq_ok hq
    by_cases hdir : w.disk.entryAt (name :: inside) = some .directory
    · simp only [if_pos hdir]
      exact .refl hw
    · simp only [if_neg hdir, removeAt_leaf hw hdir]
      exact ⟨.remove hw.tree hdir ⟨name, outer, inside, hx, rfl⟩, rfl⟩

theorem putFile_near (hw : w.IsSound) (hn : h.IsNamed) (hx : h.IsBeside x) (c : Content) :
    w.ChangesOnly h.IsNear written (w.putFile x c) := by
  cases x with
  | nil => exact .refl hw
  | cons name outer =>
    unfold putFile
    cases hq : w.disk.findLast [] outer.reverse name with
    | error e =>
      have hlook : w.lookPlace (name :: outer) = none := by rw [lookPlace, hq]
      simp only [hlook, hq]
      exact .refl hw
    | ok q =>
    have hlook : w.lookPlace (name :: outer) = w.disk.entryAt q := by rw [lookPlace, hq]
    obtain ⟨inside, -, rfl, hdir, hshort⟩ := findLast_eq_ok hq
    have hnear : h.IsNear (name :: inside) := ⟨name, outer, inside, hx, rfl⟩
    rw [hlook]
    cases he : w.disk.entryAt (name :: inside) with
    | none =>
      simp only [hq]
      exact ⟨.setFile hw.tree ⟨hn name outer hx, hshort⟩ hdir he hnear c, rfl⟩
    | some e =>
      cases e with
      | file n => exact ⟨.setContent hw.tree c (.inr ⟨_, hnear, he⟩), rfl⟩
      | directory | link _ | pipe => exact .refl hw

/-! ## 4. The undo file and the log -/

/-- What an access may do beside a database that it does not change: of the entries that are
there, it removes no more than a file or pipe at the place of the undo file, unless the database is
blank. -/
structure Tends (w : World) (h : Handle) (w' : World) : Prop where
  bound : w.ChangesOnly h.IsBeside (fun _ => False) w'
  kept : (w.content h).isBlank = false → ∀ {x e}, (h.undo = some x → ∃ t, e = .link t) →
    w.disk.entryAt x = some e → w'.disk.entryAt x = some e

theorem Tends.refl (hw : w.IsSound) : w.Tends h w := ⟨.refl hw, fun _ _ _ _ h => h⟩

theorem Tends.trans (hw : w.IsSound) (hh : w.Hosts h) (h₁ : w.Tends h w') (h₂ : w'.Tends h w'') :
    w.Tends h w'' := by
  refine ⟨h₁.bound.trans h₂.bound, fun hblank x e hx he => h₂.kept ?_ hx (h₁.kept hblank hx he)⟩
  rw [hh.content_eq hw h₁.bound, hblank]

theorem unlink_undo_tends (hw : w.IsSound) (hh : w.Hosts h) (hx : h.undo = some x)
    (hlink : (w.content h).isBlank = false → ∀ t, w.disk.entryAt x ≠ some (.link t)) :
    w.Tends h (w.unlink x) := by
  refine ⟨unlink_bounded hw hh (.inl hx) (.inl hx), ?_⟩
  intro hblank y e hy he
  rw [entryAt_unlink hw hh (.inl hx), if_neg, he]
  rintro ⟨rfl, -⟩
  obtain ⟨t, rfl⟩ := hy hx
  exact hlink hblank t he

theorem settleUndo_tends (hw : w.IsSound) (hh : w.Hosts h) : w.Tends h (w.settleUndo h).1 := by
  have hrefl : w.Tends h w := .refl hw
  unfold settleUndo
  split
  · exact hrefl
  next u hu =>
  obtain ⟨name, outer, rfl, -, houter⟩ := hh.isBeside hw (.inl hu)
  rw [lookPlace_eq hw houter]
  split
  · exact hrefl
  split
  · next hblank =>
    refine unlink_undo_tends hw hh hu ?_
    intro hsolid
    rw [hblank] at hsolid
    exact absurd hsolid (by simp)
  split
  · exact hrefl
  split
  · exact hrefl
  · exact hrefl
  · next n hfile =>
    split
    · exact hrefl
    · split
      · exact hrefl
      · exact unlink_undo_tends hw hh hu fun _ t => by simp [hfile]
  · exact hrefl

theorem openUndo_bounded (hw : w.IsSound) (hh : w.Hosts h)
    (ht : ∀ u, h.undo = some u → touched u) : w.ChangesOnly touched written (w.openUndo h).1 := by
  have hrefl : w.ChangesOnly touched written w := .refl hw
  unfold openUndo
  split
  · exact hrefl
  next u hu =>
  have hput : w.ChangesOnly touched written (w.putFile u .undo) :=
    putFile_bounded hw hh (.inl hu) (ht u hu) .undo
  repeat' split
  all_goals first | exact hrefl | exact hput

theorem openUndo_tends (hw : w.IsSound) (hh : w.Hosts h) : w.Tends h (w.openUndo h).1 := by
  refine ⟨openUndo_bounded hw hh fun _ => .inl, ?_⟩
  intro _ x e _ he
  unfold openUndo
  split
  · exact he
  next u hu =>
  have hput := putFile_kept hw hh (.inl hu) .undo he
  repeat' split
  all_goals first | exact he | exact hput

/-- An undo file that was opened is no link and no directory. -/
theorem openUndo_leaf (hw : w.IsSound) (hh : w.Hosts h) {u : Place} (hu : h.undo = some u)
    (hopen : w.openUndo h = (w', .ok ())) :
    w' = w.putFile u .undo ∧ Text.byteCount (u.headD []) ≤ Disk.maxName ∧
      w.disk.entryAt u ≠ some .directory ∧ ∀ t, w.disk.entryAt u ≠ some (.link t) := by
  obtain ⟨name, outer, rfl, -, houter⟩ := hh.isBeside hw (.inl hu)
  unfold openUndo at hopen
  rw [hu] at hopen
  simp only [lookPlace_eq hw houter] at hopen
  split at hopen
  · exact absurd (congrArg Prod.snd hopen) (by simp)
  split at hopen
  · exact absurd (congrArg Prod.snd hopen) (by simp)
  split at hopen
  · exact absurd (congrArg Prod.snd hopen) (by simp)
  next hroom =>
  split at hopen
  · exact absurd (congrArg Prod.snd hopen) (by simp)
  · exact absurd (congrArg Prod.snd hopen) (by simp)
  · next hdir hlink =>
    exact ⟨(congrArg Prod.fst hopen).symm, Nat.le_of_not_lt hroom, hdir, hlink⟩

/-- After it was opened, the undo file can be removed. -/
theorem openUndo_after (hw : w.IsSound) (hh : w.Hosts h) {u : Place} (hu : h.undo = some u)
    (hopen : w.openUndo h = (w', .ok ())) :
    w'.disk.entryAt u ≠ some .directory ∧ ∀ t, w'.disk.entryAt u ≠ some (.link t) := by
  obtain ⟨rfl, -, hdir, hlink⟩ := openUndo_leaf hw hh hu hopen
  rcases entryAt_putFile hw hh (.inl hu) .undo u with hsame | ⟨-, -, hfile⟩
  · rw [hsame]
    exact ⟨hdir, hlink⟩
  · simp [hfile]

theorem dropUndo_bounded (hw : w.IsSound) (hh : w.Hosts h)
    (ht : ∀ u, h.undo = some u → touched u) : w.ChangesOnly touched written (w.dropUndo h) := by
  unfold dropUndo
  split
  · exact .refl hw
  · next u hu => exact unlink_bounded hw hh (.inl hu) (ht u hu)

theorem dropUndo_tends (hw : w.IsSound) (hh : w.Hosts h)
    (hlink : (w.content h).isBlank = false → ∀ u t, h.undo = some u →
      w.disk.entryAt u ≠ some (.link t)) : w.Tends h (w.dropUndo h) := by
  unfold dropUndo
  split
  · exact .refl hw
  · next u hu => exact unlink_undo_tends hw hh hu fun hblank t => hlink hblank u t hu

theorem settleLog_tends (hw : w.IsSound) (hh : w.Hosts h) : w.Tends h (w.settleLog h).1 := by
  have hrefl : w.Tends h w := .refl hw
  unfold settleLog
  split
  · exact hrefl
  next l hl =>
  split
  · exact hrefl
  split
  · next hblank =>
    split
    · exact hrefl
    · refine ⟨unlink_bounded hw hh (.inr (.inl hl)) (.inr (.inl hl)), ?_⟩
      intro hsolid
      rw [hblank] at hsolid
      exact absurd hsolid (by simp)
  split
  · exact hrefl
  split
  · next index _ hindex =>
    exact ⟨putFile_bounded hw hh (.inr (.inr hindex)) (.inr (.inr hindex)) .undo,
      fun _ _ _ _ he => putFile_kept hw hh (.inr (.inr hindex)) .undo he⟩
  · exact hrefl

theorem releaseLog_bounded {c : Connection} (hw : w.IsSound) (hh : w.Hosts c.handle) :
    w.ChangesOnly c.handle.IsBeside written (w.releaseLog c) := by
  unfold releaseLog
  split
  · split
    · next l index hl hindex =>
      have hfirst : w.ChangesOnly c.handle.IsBeside written (w.unlink l) :=
        unlink_bounded hw hh (.inr (.inl hl)) (.inr (.inl hl))
      exact hfirst.trans (unlink_bounded (hfirst.sound hw) (hh.after hfirst) (.inr (.inr hindex))
        (.inr (.inr hindex)))
    · exact .refl hw
  · exact .refl hw

end World

end CompileJournal
