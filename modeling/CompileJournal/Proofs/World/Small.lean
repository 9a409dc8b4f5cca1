import CompileJournal.Proofs.World.Growth

/-!
# Worlds with little in them

Two families of worlds that commands can run in: the root with a few entries that are written out,
in which the commands run too, and a chain of directories in which each holds the next one only.

* `Disk.forall_entryAt`: what holds of all entries that are written out holds of every place;
* `Disk.isTree_of_entries`: entries that make a tree;
* `chainWorld_isSound`: the chain, with the innermost directory as the current one.
-/

namespace CompileJournal

open Disk (IsName)

instance : DecidablePred IsName := fun name =>
  decidable_of_iff (name ≠ [] ∧ name ≠ ['.'] ∧ name ≠ ['.', '.'] ∧ '/' ∉ name ∧
      Text.nul ∉ name ∧ Text.byteCount name ≤ Disk.maxName)
    ⟨fun ⟨hnil, hhere, habove, hslash, hnul, hshort⟩ =>
      ⟨⟨hnil, hhere, habove, hslash, hnul⟩, hshort⟩,
    fun h => ⟨h.ne_nil, h.ne_here, h.ne_above, h.no_slash, h.no_nul, h.short⟩⟩

/-! ## 1. Entries that are written out -/

namespace Disk

variable {d : Disk}

/-- What holds of the root and of all entries holds wherever something lies. -/
theorem forall_entryAt {P : Place → Entry → Prop} (hroot : P [] .directory)
    (hentries : ∀ e ∈ d.entries, P e.1.2 e.2) {x : Place} {e : Entry}
    (hx : d.entryAt x = some e) : P x e := by
  cases x with
  | nil =>
    obtain rfl : Entry.directory = e := Option.some.inj hx
    exact hroot
  | cons name outer =>
    rw [entryAt_cons, List.lookup_eq_some_iff] at hx
    obtain ⟨before, after, heq, -⟩ := hx
    exact hentries _ (by rw [heq]; exact List.mem_append_right _ List.mem_cons_self)

/-- What an entry at a place must be: a file has a content and lies at no other place. -/
def Fits (d : Disk) (p : Place) : Entry → Prop
  | .directory | .pipe => True
  | .file n => n < d.contents.length ∧ ∀ e ∈ d.entries, e.2 = .file n → e.1.2 = p
  | .link target => Text.nul ∉ target

instance (d : Disk) (p : Place) : (e : Entry) → Decidable (d.Fits p e)
  | .directory | .pipe => .isTrue trivial
  | .file n => inferInstanceAs
      (Decidable (n < d.contents.length ∧ ∀ e ∈ d.entries, e.2 = .file n → e.1.2 = p))
  | .link target => inferInstanceAs (Decidable (Text.nul ∉ target))

/-- **Entries make a tree** if each of them lies in a directory, under a name, and fits there. -/
theorem isTree_of_entries
    (hplace : ∀ e ∈ d.entries,
      IsName (e.1.2.headD []) ∧ d.entryAt e.1.2.tail = some .directory)
    (hfits : ∀ e ∈ d.entries, d.Fits e.1.2 e.2) : d.IsTree := by
  have hat : ∀ {x e}, d.entryAt x = some e → x ≠ [] →
      IsName (x.headD []) ∧ d.entryAt x.tail = some .directory := fun hx hne =>
    forall_entryAt (P := fun x _ => x ≠ [] → IsName (x.headD []) ∧
      d.entryAt x.tail = some .directory) (fun h => absurd rfl h) (fun e he _ => hplace e he) hx hne
  have hfit : ∀ {x e}, d.entryAt x = some e → d.Fits x e := forall_entryAt trivial hfits
  refine ⟨fun h => (hat h (by simp)).2, fun h => (hat h (by simp)).1, fun h => (hfit h).1, ?_,
    fun h => hfit h⟩
  intro p q n hp hq
  have hsame := (hfit hp).2
  exact (forall_entryAt (P := fun x e => e = .file n → x = p) (by simp) hsame hq rfl).symm

theorem isTree_empty : ({} : Disk).IsTree := isTree_of_entries (by simp) (by simp)

end Disk

/-- Whether an entry is a regular file. -/
def Entry.isFile : Entry → Bool
  | file _ => true
  | directory | link _ | pipe => false

theorem Entry.exists_of_isFile {e : Entry} (h : e.isFile = true) : ∃ n, e = .file n := by
  cases e with
  | file n => exact ⟨n, rfl⟩
  | directory | link _ | pipe => exact absurd h (by simp [isFile])

namespace World

/-- The world that runs commands in the root of a disk that is written out. -/
def written (entries : List (Place × Entry)) (contents : List Content) : World :=
  { disk := { entries := entries.map fun e => (e.1.key, e.2), contents := contents }
    cwd := ⟨[], 0⟩ }

end World

/-! ## 2. A chain of directories -/

/-- The innermost place of a chain of directories of one name. -/
def Place.chain (name : Name) (depth : Nat) : Place := List.replicate depth name

/-- A disk with a chain of directories. -/
def Disk.chainDisk (name : Name) : Nat → Disk
  | 0 => {}
  | depth + 1 => (chainDisk name depth).set (Place.chain name (depth + 1)) .directory

theorem Disk.chainDisk_spec {name : Name} (hname : IsName name) (depth : Nat) :
    (chainDisk name depth).IsTree ∧
      (chainDisk name depth).entryAt (Place.chain name depth) = some .directory ∧
      ∀ x : Place, depth < x.length → (chainDisk name depth).entryAt x = none := by
  induction depth with
  | zero =>
    refine ⟨isTree_empty, rfl, ?_⟩
    intro x hx
    cases x with
    | nil => exact absurd hx (by simp)
    | cons m outer => rfl
  | succ depth ih =>
    obtain ⟨htree, hdir, hnone⟩ := ih
    have hchain : Place.chain name (depth + 1) = name :: Place.chain name depth := rfl
    have hlength : (Place.chain name (depth + 1)).length = depth + 1 := List.length_replicate
    have hset := entryAt_set (chainDisk name depth) (p := Place.chain name (depth + 1))
      (by simp [hchain]) .directory
    refine ⟨?_, ?_, fun x hx => ?_⟩
    · exact htree.set hname hdir (hnone _ (by simp)) (by simp) (by simp)
    · rw [chainDisk, hset, if_pos rfl]
    · rw [chainDisk, hset, if_neg, hnone x (by omega)]
      rintro rfl
      omega

/-- The world that runs commands at the end of a chain. -/
def World.chainWorld (name : Name) (depth : Nat) : World :=
  { disk := Disk.chainDisk name depth, cwd := ⟨Place.chain name depth, 0⟩ }

theorem World.chainWorld_isSound {name : Name} (hname : IsName name) (depth : Nat) :
    (chainWorld name depth).IsSound :=
  ⟨(Disk.chainDisk_spec hname depth).1, (Disk.chainDisk_spec hname depth).2.1⟩

end CompileJournal
