import CompileJournal.Journal.Database
import CompileJournal.Proofs.Disk.Changes
import CompileJournal.Proofs.Path.Pieces

/-!
# What opening a database adds to the world

Before a database is opened, the missing directories above it are made, and the file itself if it
is missing.  Nothing that was there is changed by that: the world only *grows*.  The makers of
directories trust each other about what has just been made, so the bound on them carries along
that a directory that was made is empty.

* `World.ChangesOnly`: the bound on the changes of a world;
* `World.Grows`: the case in which only places where nothing lay are touched;
* `makeDirectories_grows`, `connect_ok`: the two steps of opening.
-/

namespace CompileJournal

open Disk (IsClean IsName)

namespace World

/-! ## 1. Worlds that a command can run in -/

/-- The disk is a tree, and the current directory is one of its directories. -/
structure IsSound (w : World) : Prop where
  tree : w.disk.IsTree
  cwd : w.disk.entryAt w.cwd.place = some .directory

/-- A world and a later one that differ on the disk alone, at the touched places and in the
written files. -/
structure ChangesOnly (touched : Place → Prop) (written : FileNumber → Prop) (w w' : World) :
    Prop where
  disk : w.disk.ChangesOnly touched written w'.disk
  rest : w' = w.withDisk w'.disk

namespace ChangesOnly

variable {touched : Place → Prop} {written : FileNumber → Prop} {w w' w'' : World}

theorem refl (hw : w.IsSound) : ChangesOnly touched written w w := ⟨.refl hw.tree, rfl⟩

theorem trans (h : ChangesOnly touched written w w') (h' : ChangesOnly touched written w' w'') :
    ChangesOnly touched written w w'' := by
  refine ⟨h.disk.trans h'.disk, ?_⟩
  rw [h'.rest, h.rest]
  rfl

theorem mono {touched' : Place → Prop} {written' : FileNumber → Prop}
    (h : ChangesOnly touched written w w') (ht : ∀ x, touched x → touched' x)
    (hw : ∀ n, written n → written' n) : ChangesOnly touched' written' w w' :=
  ⟨h.disk.mono ht hw, h.rest⟩

theorem cwd (h : ChangesOnly touched written w w') : w'.cwd = w.cwd := by
  rw [h.rest]
  rfl

theorem locks (h : ChangesOnly touched written w w') : w'.locks = w.locks := by
  rw [h.rest]
  rfl

theorem connections (h : ChangesOnly touched written w w') : w'.connections = w.connections := by
  rw [h.rest]
  rfl

theorem environment (h : ChangesOnly touched written w w') : w'.environment = w.environment := by
  rw [h.rest]
  rfl

theorem sound (h : ChangesOnly touched written w w') (hw : w.IsSound) : w'.IsSound :=
  ⟨h.disk.tree, h.cwd ▸ h.disk.directory hw.cwd⟩

end ChangesOnly

/-- A world and a later one in which there is more, and all that was there is as it was. -/
def Grows (w w' : World) : Prop :=
  ChangesOnly (fun x => w.disk.entryAt x = none) (fun _ => False) w w'

namespace Grows

variable {w w' w'' : World}

theorem refl (hw : w.IsSound) : Grows w w := ChangesOnly.refl hw

theorem kept (h : Grows w w') {x : Place} {e : Entry} (hx : w.disk.entryAt x = some e) :
    w'.disk.entryAt x = some e :=
  h.disk.kept hx (.inl (by simp [hx]))

theorem trans (h : Grows w w') (h' : Grows w' w'') : Grows w w'' := by
  refine ChangesOnly.trans h (ChangesOnly.mono h' (fun x hx => ?_) fun _ h => h)
  cases hw : w.disk.entryAt x with
  | none => rfl
  | some e =>
    rw [h.kept hw] at hx
    exact absurd hx (by simp)

theorem sound (h : Grows w w') (hw : w.IsSound) : w'.IsSound := ChangesOnly.sound h hw

theorem content (h : Grows w w') (hw : w.IsSound) {p : Place} {n : FileNumber}
    (hp : w.disk.entryAt p = some (.file n)) : w'.disk.contentOf n = w.disk.contentOf n :=
  h.disk.content_kept hw.tree hp (by simp [hp]) id

end Grows

variable {w : World}

/-! ## 2. Names that are looked up -/

/-- Climbing out of removed directories keeps the place that is still there. -/
theorem climb_ok {s s' : Spot} {names rest : List Name} (h : s.climb names = .ok (s', rest)) :
    s'.place = s.place ∧ ∀ m ∈ rest, m ∈ names := by
  induction names generalizing s with
  | nil =>
    cases h
    exact ⟨rfl, by simp⟩
  | cons name names ih =>
    have hcons : ∀ {m}, m ∈ names → m ∈ name :: names := List.mem_cons_of_mem _
    unfold Spot.climb at h
    split at h
    · cases h
      exact ⟨rfl, fun m hm => hm⟩
    split at h
    · exact ⟨(ih h).1, fun m hm => hcons ((ih h).2 m hm)⟩
    split at h
    · exact ⟨(ih h).1, fun m hm => hcons ((ih h).2 m hm)⟩
    · exact absurd h (by simp)

/-- A lookup starts at a directory, with names that can be looked up. -/
theorem start_ok (hw : w.IsSound) {path : Text} {s : Spot} {names : List Name}
    (h : w.start path = .ok (s, names)) :
    w.disk.entryAt s.place = some .directory ∧ ∀ m ∈ names, Path.IsPiece m := by
  unfold start at h
  split at h
  · exact absurd h (by simp)
  next hpath =>
  have hnul : Text.nul ∉ path := fun hn => hpath (.inr hn)
  split at h
  · exact absurd h (by simp)
  split at h
  · cases h
    exact ⟨rfl, fun m hm => Path.isPiece_of_mem_names hnul hm⟩
  · obtain ⟨hplace, hnames⟩ := climb_ok h
    exact ⟨hplace ▸ hw.cwd, fun m hm => Path.isPiece_of_mem_names hnul (hnames m hm)⟩

/-! ## 3. Making directories -/

theorem splitLast_eq_some {names front : List Name} {last : Name}
    (h : Disk.splitLast names = some (front, last)) :
    last ∈ names ∧ last ≠ [] ∧ last ≠ ['.'] ∧ last ≠ ['.', '.'] := by
  unfold Disk.splitLast at h
  split at h
  · exact absurd h (by simp)
  next m hm =>
  split at h
  · exact absurd h (by simp)
  next hordinary =>
  simp only [not_or] at hordinary
  cases h
  exact ⟨List.mem_of_getLast? hm, hordinary⟩

theorem findLast_eq_ok {d : Disk} {here p : Place} {names : List Name} {last : Name}
    (h : d.findLast here names last = .ok p) :
    ∃ outer, d.find here names = .ok outer ∧ p = last :: outer ∧
      d.entryAt outer = some .directory ∧ Text.byteCount last ≤ Disk.maxName := by
  unfold Disk.findLast at h
  split at h
  · exact absurd h (by simp)
  next outer hfind =>
  split at h
  · exact absurd h (by simp)
  next hdir =>
  split at h
  · exact absurd h (by simp)
  next hshort =>
  cases h
  exact ⟨outer, hfind, rfl, Decidable.not_not.mp hdir, Nat.le_of_not_lt hshort⟩

/-- A new entry comes into a directory, under a name that can be a name. -/
theorem makeEntryAt_ok (hw : w.IsSound) {path : Text} {e : Entry} {w' : World} {p : Place}
    (h : w.makeEntryAt path e = .ok (w', p)) :
    ∃ name outer, p = name :: outer ∧ IsName name ∧ w.disk.entryAt outer = some .directory ∧
      w.disk.entryAt p = none ∧ w' = w.withDisk (w.disk.set p e) := by
  unfold makeEntryAt at h
  split at h
  · exact absurd h (by simp)
  split at h
  · exact absurd h (by simp)
  next s names hstart =>
  split at h
  · exact absurd h (by simp)
  next front last hlast =>
  split at h
  · exact absurd h (by simp)
  next q hq =>
  split at h
  · next hnone =>
    cases h
    obtain ⟨outer, -, rfl, hdir, hshort⟩ := findLast_eq_ok hq
    obtain ⟨hmem, hnil, hhere, habove⟩ := splitLast_eq_some hlast
    have hpiece := (start_ok hw hstart).2 last (List.mem_filter.mp hmem).1
    exact ⟨last, outer, rfl, ⟨hpiece.isClean hnil hhere habove, hshort⟩, hdir, hnone, rfl⟩
  · exact absurd h (by simp)

/-- What a maker of directories leaves: a world that has grown, but has no new files, and an empty
directory if one was made. -/
structure Makes (w : World) (r : World × Except Failure (Option Place)) : Prop where
  grows : w.Grows r.1
  contents : r.1.disk.contents = w.disk.contents
  made : ∀ {p}, r.2 = .ok (some p) →
    r.1.disk.entryAt p = some .directory ∧ ∀ name, r.1.disk.entryAt (name :: p) = none

/-- Nothing is made. -/
theorem makes_nothing (hw : w.IsSound) {r : Except Failure (Option Place)}
    (h : ∀ p, r ≠ .ok (some p)) : Makes w (w, r) :=
  ⟨.refl hw, rfl, fun hp => absurd hp (h _)⟩

/-- A directory is made where nothing lay. -/
theorem makes_directory (hw : w.IsSound) {name : Name} {outer : Place} (hname : IsName name)
    (houter : w.disk.entryAt outer = some .directory)
    (hnone : w.disk.entryAt (name :: outer) = none) :
    Makes w (w.withDisk (w.disk.set (name :: outer) .directory), .ok (some (name :: outer))) := by
  have hset := Disk.entryAt_set w.disk (List.cons_ne_nil name outer) .directory
  refine ⟨⟨.setDirectory hw.tree hname houter hnone fun _ h => h, rfl⟩, rfl, ?_⟩
  rintro p ⟨⟩
  refine ⟨by simp [withDisk, hset], ?_⟩
  intro inner
  have hbelow : w.disk.entryAt (inner :: name :: outer) = none :=
    hw.tree.nothing_below (p := name :: outer) (by simp [hnone]) (List.suffix_cons _ _)
      (List.cons_ne_self _ _)
  have hne : inner :: name :: outer ≠ name :: outer := List.cons_ne_self _ _
  rw [withDisk, hset, if_neg hne, hbelow]

theorem ensureDirectory_makes (hw : w.IsSound) (path : Text) :
    Makes w (w.ensureDirectory path) := by
  unfold ensureDirectory
  split
  next w' p hmake =>
    obtain ⟨name, outer, rfl, hname, houter, hnone, rfl⟩ := makeEntryAt_ok hw hmake
    exact makes_directory hw hname houter hnone
  next => split <;> exact makes_nothing hw (by simp)
  next => exact makes_nothing hw (by simp)

theorem ensureInside_makes (hw : w.IsSound) {p : Place} {name : Name} {path : Text}
    (hname : Text.nul ∉ path → IsClean name) (hp : w.disk.entryAt p = some .directory)
    (hnone : w.disk.entryAt (name :: p) = none) : Makes w (w.ensureInside p name path) := by
  unfold ensureInside
  split
  · exact makes_nothing hw (by simp)
  next hnul =>
  split
  · exact makes_nothing hw (by simp)
  next hshort =>
    exact makes_directory hw ⟨hname hnul, Nat.le_of_not_lt (not_or.mp hshort).2⟩ hp hnone

theorem Makes.after {r r' : World × Except Failure (Option Place)} (h : Makes w r)
    (h' : Makes r.1 r') : Makes w r' :=
  ⟨h.grows.trans h'.grows, h'.contents.trans h.contents, h'.made⟩

theorem makeMissing_makes (doubled : Bool) (inner : List Name)
    (hinner : ∀ m ∈ inner, Path.IsAlmostClean m) (hw : w.IsSound) :
    Makes w (makeMissing doubled inner w) := by
  induction inner with
  | nil => exact ensureDirectory_makes hw _
  | cons name outer ih =>
    have hmade := ih fun m hm => hinner m (List.mem_cons_of_mem _ hm)
    have hname : Text.nul ∉ Path.Lexical.text ⟨doubled, name :: outer⟩ → IsClean name :=
      fun hnul => hinner name List.mem_cons_self fun hm =>
        hnul (Path.mem_text_of_mem List.mem_cons_self hm)
    simp only [makeMissing]
    split
    · exact ensureDirectory_makes hw _
    · split
      next w' p hr =>
        rw [hr] at hmade
        obtain ⟨hdir, hempty⟩ := hmade.made rfl
        exact .after hmade
          (ensureInside_makes (hmade.grows.sound hw) hname hdir (hempty name))
      next w' hr =>
        rw [hr] at hmade
        exact .after hmade (ensureDirectory_makes (hmade.grows.sound hw) _)
      next w' path hr =>
        rw [hr] at hmade
        exact .after hmade (ensureDirectory_makes (hmade.grows.sound hw) _)
      next w' e _ hr =>
        rw [hr] at hmade
        exact ⟨hmade.grows, hmade.contents, by simp⟩

/-- **Making the directories above a database only adds to the world.** -/
theorem makeDirectories_grows (doubled : Bool) {inner : List Name}
    (hinner : ∀ m ∈ inner, Path.IsAlmostClean m) (hw : w.IsSound) :
    w.Grows (makeDirectories doubled inner w).1 := by
  unfold makeDirectories
  split
  · exact .refl hw
  · exact (makeMissing_makes doubled inner hinner hw).grows

/-- Directories have no content, so the contents of all files stay as they are. -/
theorem makeDirectories_contents (doubled : Bool) {inner : List Name}
    (hinner : ∀ m ∈ inner, Path.IsAlmostClean m) (hw : w.IsSound) :
    (makeDirectories doubled inner w).1.disk.contents = w.disk.contents := by
  unfold makeDirectories
  split
  · rfl
  · exact (makeMissing_makes doubled inner hinner hw).contents

/-! ## 4. Opening the file -/

open Disk in
/-- A database path leads through names that can be written. -/
theorem databaseSteps_clean {d : Disk} (hd : d.IsTree)
    {follow : Place → List Name → Option Place}
    (hfollow : ∀ {here names p}, (∀ m ∈ here, IsClean m) → (∀ m ∈ names, Path.IsPiece m) →
      follow here names = some p → ∀ m ∈ p, IsClean m)
    {here p : Place} {names : List Name} (hhere : ∀ m ∈ here, IsClean m)
    (hnames : ∀ m ∈ names, Path.IsPiece m) (h : d.databaseSteps follow here names = some p) :
    ∀ m ∈ p, IsClean m := by
  induction names generalizing here with
  | nil =>
    cases h
    exact hhere
  | cons name rest ih =>
    have hrest : ∀ m ∈ rest, Path.IsPiece m := fun m hm => hnames m (List.mem_cons_of_mem _ hm)
    unfold databaseSteps at h
    split at h
    · exact ih hhere hrest h
    next hstay =>
    split at h
    · exact ih (fun m hm => hhere m (List.mem_of_mem_tail hm)) hrest h
    next habove =>
    have hname : IsClean name := (hnames name List.mem_cons_self).isClean
      (fun e => hstay (.inl e)) (fun e => hstay (.inr e)) habove
    have hdown : ∀ m ∈ name :: here, IsClean m := by
      intro m hm
      rcases List.mem_cons.mp hm with rfl | hm
      · exact hname
      · exact hhere m hm
    split at h
    · exact absurd h (by simp)
    split at h
    · exact ih hdown hrest h
    · split at h
      · exact absurd h (by simp)
      split at h
      · next target hlink =>
        split at h
        · exact absurd h (by simp)
        refine hfollow ?_ (fun m hm => ?_) h
        · split
          · simp
          · exact hhere
        · rcases List.mem_append.mp hm with hm | hm
          · exact Path.isPiece_of_mem (hd.target hlink) hm
          · exact hrest m hm
      · exact ih hdown hrest h
    · exact absurd h (by simp)

theorem databasePlace_clean {d : Disk} (hd : d.IsTree) {links : Nat} {here p : Place}
    {names : List Name} (hhere : ∀ m ∈ here, IsClean m) (hnames : ∀ m ∈ names, Path.IsPiece m)
    (h : d.databasePlace links here names = some p) : ∀ m ∈ p, IsClean m := by
  induction links generalizing here names p with
  | zero => exact databaseSteps_clean hd (fun _ _ h => absurd h (by simp)) hhere hnames h
  | succ links ih => exact databaseSteps_clean hd ih hhere hnames h

theorem databasePlace?_clean (hw : w.IsSound) {path : Text} (hnul : Text.nul ∉ path) {p : Place}
    (h : w.databasePlace? path = some p) : ∀ m ∈ p, IsClean m := by
  unfold databasePlace? at h
  have hpieces : ∀ m ∈ Path.pieces path, Path.IsPiece m := fun m hm => Path.isPiece_of_mem hnul hm
  split at h
  · exact databasePlace_clean hw.tree (by simp) hpieces h
  split at h
  · refine databasePlace_clean hw.tree (by simp) (fun m hm => ?_) h
    rcases List.mem_append.mp hm with hm | hm
    · have hm := hw.tree.clean hw.cwd m (List.mem_reverse.mp hm)
      exact ⟨hm.no_slash, hm.no_nul⟩
    · exact hpieces m hm
  · exact absurd h (by simp)

/-- The file behind a handle is there, and lies where it was opened. -/
structure Hosts (w : World) (h : Handle) : Prop where
  number : h.file < w.disk.contents.length
  place : ∀ {p}, h.place = some p → w.disk.entryAt p = some (.file h.file)

/-- The file of a handle stays where it is under changes elsewhere. -/
theorem Hosts.elsewhere {h : Handle} {touched : Place → Prop} {written : FileNumber → Prop}
    {w' : World} (hh : w.Hosts h) (hc : w.disk.ChangesOnly touched written w'.disk)
    (ht : ∀ {p}, h.place = some p → ¬touched p) : w'.Hosts h :=
  ⟨Nat.lt_of_lt_of_le hh.number hc.length, fun hp => (hc.elsewhere (ht hp)).trans (hh.place hp)⟩

/-- The file behind a handle is new and empty, and nothing else has come. -/
structure AddsFile (w : World) (h : Handle) (w' : World) : Prop where
  contents : w'.disk.contents = w.disk.contents ++ [.text []]
  number : h.file = w.disk.contents.length
  place : ∀ {p}, h.place = some p → w.disk.entryAt p = none
  elsewhere : ∀ {x}, h.place ≠ some x → w'.disk.entryAt x = w.disk.entryAt x

theorem AddsFile.content {h : Handle} {w' : World} (ha : w.AddsFile h w') :
    w'.disk.contentOf h.file = .text [] := by
  rw [Disk.contentOf, ha.contents, ha.number, List.getElem?_concat_length]
  rfl

/-- What connecting to a database leaves. -/
structure Connects (w : World) (path : Text) (w' : World) (c : Connection) : Prop where
  grows : w.Grows w'
  hosts : w'.Hosts c.handle
  memory : c.memory = {}
  place : if isPrivateDatabase path then c.handle.place = none ∧ w.disk.nextNumber = c.handle.file
    else ∃ p, c.handle.place = some p ∧ w.databasePlace? path = some p
  file : w' = w ∨ w.AddsFile c.handle w'
  room : ∀ {p}, c.handle.place = some p → p.byteCount ≤ maxDatabasePath

theorem connectAt_ok (hw : w.IsSound) {p : Place} (hp : ∀ m ∈ p, IsClean m) {w' : World}
    {c : Connection} (h : w.connectAt p = .ok (w', c)) :
    w.Grows w' ∧ w'.Hosts c.handle ∧ c.memory = {} ∧ c.handle.place = some p ∧
      (w' = w ∨ w.AddsFile c.handle w') ∧ p.byteCount ≤ maxDatabasePath := by
  unfold connectAt at h
  split at h
  · exact absurd h (by simp)
  next hroom =>
  have hroom := Nat.le_of_not_lt hroom
  cases p with
  | nil => exact absurd h (by simp)
  | cons name outer =>
  simp only at h
  split at h
  · exact absurd h (by simp)
  next hcan =>
  simp only [not_or, not_not, Nat.not_lt] at hcan
  have hname : IsName name := ⟨hp name List.mem_cons_self, hcan.2⟩
  split at h
  · next hnone =>
    cases h
    have hgrows : w.Grows (w.withDisk
        ((w.disk.set (name :: outer) (.file w.disk.nextNumber)).addContent (.text []))) :=
      ⟨.setFile hw.tree hname hcan.1 hnone hnone _, rfl⟩
    have hentry : ∀ x, (w.withDisk ((w.disk.set (name :: outer)
        (.file w.disk.nextNumber)).addContent (.text []))).disk.entryAt x =
          if x = name :: outer then some (.file w.disk.nextNumber) else w.disk.entryAt x := fun x =>
      (Disk.entryAt_addContent ..).trans (Disk.entryAt_set _ (List.cons_ne_nil name outer) _ x)
    refine ⟨hgrows, ⟨?_, ?_⟩, rfl, rfl, .inr ⟨rfl, rfl, ?_, ?_⟩, hroom⟩
    · simp [withDisk, Disk.nextNumber]
    · rintro q ⟨⟩
      rw [hentry, if_pos rfl]
    · rintro q ⟨⟩
      exact hnone
    · intro x hx
      rw [hentry, if_neg fun heq => hx (congrArg some heq.symm)]
  · next n hfile =>
    cases h
    refine ⟨.refl hw, ⟨hw.tree.number hfile, ?_⟩, rfl, rfl, .inl rfl, hroom⟩
    rintro q ⟨⟩
    exact hfile
  · exact absurd h (by simp)
  · exact absurd h (by simp)

/-- **Connecting to a database makes at most its file**, and the connection is one to the file
where the path leads. -/
theorem connect_ok (hw : w.IsSound) {path : Text} {w' : World} {c : Connection}
    (h : w.connect path = .ok (w', c)) : w.Connects path w' c := by
  unfold connect at h
  split at h
  · next hprivate =>
    cases h
    refine ⟨⟨.addContent hw.tree _, rfl⟩, ⟨?_, by simp⟩, rfl, ?_, .inr ⟨rfl, rfl, by simp, ?_⟩,
      by simp⟩
    · simp [withDisk, Disk.nextNumber]
    · rw [if_pos hprivate]
      exact ⟨rfl, rfl⟩
    · intro x _
      exact Disk.entryAt_addContent ..
  next hprivate =>
  split at h
  · exact absurd h (by simp)
  next hnul =>
  split at h
  · exact absurd h (by simp)
  next p hp =>
  obtain ⟨hgrows, hhosts, hmemory, hplace, hfile, hroom⟩ :=
    connectAt_ok hw (databasePlace?_clean hw hnul hp) h
  refine ⟨hgrows, hhosts, hmemory, ?_, hfile, fun hq => ?_⟩
  · rw [if_neg hprivate]
    exact ⟨p, hplace, hp⟩
  · obtain rfl := Option.some.inj (hplace.symm.trans hq)
    exact hroom

namespace Connects

variable {path : Text} {w' : World} {c : Connection} (hc : w.Connects path w' c)
include hc

theorem exists_place (hprivate : isPrivateDatabase path = false) :
    ∃ p, c.handle.place = some p ∧ w.databasePlace? path = some p := by
  have hplace := hc.place
  rwa [if_neg (by simp [hprivate])] at hplace

theorem of_place {p : Place} (hp : c.handle.place = some p) :
    isPrivateDatabase path = false ∧ w.databasePlace? path = some p := by
  have hplace := hc.place
  split at hplace
  · exact absurd (hplace.1.symm.trans hp) (by simp)
  · next hprivate =>
    obtain ⟨q, hq, hleads⟩ := hplace
    obtain rfl := Option.some.inj (hq.symm.trans hp)
    exact ⟨by simpa using hprivate, hleads⟩

/-- Only a private database lies nowhere, and it is always a new file. -/
theorem of_private (hnone : c.handle.place = none) :
    isPrivateDatabase path = true ∧ w.AddsFile c.handle w' := by
  have hplace := hc.place
  split at hplace
  · next hprivate =>
    refine ⟨hprivate, hc.file.resolve_left ?_⟩
    rintro rfl
    exact absurd hc.hosts.number (hplace.2 ▸ Nat.lt_irrefl _)
  · obtain ⟨p, hp, -⟩ := hplace
    exact absurd (hp.symm.trans hnone) (by simp)

/-- A database that was there lies somewhere. -/
theorem found_or_added :
    (w' = w ∧ ∃ p, c.handle.place = some p) ∨ w.AddsFile c.handle w' := by
  cases hplace : c.handle.place with
  | none => exact .inr (hc.of_private hplace).2
  | some p => exact hc.file.imp_left fun heq => ⟨heq, p, rfl⟩

end Connects

end World

end CompileJournal
