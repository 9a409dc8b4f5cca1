import CompileJournal.Proofs.Disk.Entries

/-!
# Where a path leads

The walk through the names of a path counts down the links it may still follow, and hands all
names that are left to the walk after a link.  The relation `Leads` says the same step by step
and counts the links that were followed.  It can be cut in two where the names are cut in two,
which the walk itself cannot, and it shows at a glance which entries a walk has looked at.

* `walk_eq_present_iff`, `find_eq_ok_iff`: the walk that arrives and the relation agree;
* `Leads.append`, `Leads.split`: going on from where the first names lead;
* `Leads.of_keeps`: a walk arrives on another disk that has the same directories and links and
  the entry it arrives at;
* `walk_congr`, `find_congr`: walks on two disks with the same entries;
* `leads_place`: the names of a place lead to it.
-/

namespace CompileJournal.Disk

/-! ## 1. The relation -/

/-- A name that is looked for in a directory. -/
def IsOrdinary (name : Name) : Prop := name ≠ [] ∧ name ≠ ['.'] ∧ name ≠ ['.', '.']

/-- Where the target of a link in the directory `here` starts. -/
def targetStart (here : Place) (target : Text) : Place :=
  if Path.isAbsolute target then [] else here

/-- The names lead from a place to a place, along the given number of links. -/
inductive Leads (d : Disk) : Nat → Place → List Name → Place → Prop
  | arrived (here : Place) : Leads d 0 here [] here
  | stay {k here name rest q} (hdir : d.entryAt here = some .directory)
      (hname : name = [] ∨ name = ['.']) (h : Leads d k here rest q) :
      Leads d k here (name :: rest) q
  | above {k here rest q} (hdir : d.entryAt here = some .directory)
      (h : Leads d k here.tail rest q) : Leads d k here (['.', '.'] :: rest) q
  | down {k here name rest q e} (hdir : d.entryAt here = some .directory)
      (hname : IsOrdinary name) (hshort : Text.byteCount name ≤ maxName)
      (he : d.entryAt (name :: here) = some e) (hlink : ∀ target, e ≠ .link target)
      (h : Leads d k (name :: here) rest q) : Leads d k here (name :: rest) q
  | follow {k here name rest q target} (hdir : d.entryAt here = some .directory)
      (hname : IsOrdinary name) (hshort : Text.byteCount name ≤ maxName)
      (he : d.entryAt (name :: here) = some (.link target)) (htarget : target ≠ [])
      (h : Leads d k (targetStart here target) (Path.names target ++ rest) q) :
      Leads d (k + 1) here (name :: rest) q

variable {d : Disk}

/-! ## 2. The walk -/

/-- What a walk with so many links left does at the next one. -/
def onward (d : Disk) (purpose : Purpose) : Nat → Place → List Name → Except Errno Landing
  | 0 => fun _ _ => .error .tooManyLinks
  | links + 1 => d.walk purpose links

theorem walk_eq_steps (d : Disk) (purpose : Purpose) (links : Nat) :
    d.walk purpose links = d.steps purpose (d.onward purpose links) := by
  cases links <;> rfl

/-- What steps that land do with their first name, and how they go on. -/
inductive Takes (d : Disk) (purpose : Purpose) (next : Place → List Name → Except Errno Landing)
    (here : Place) (name : Name) (rest : List Name) (l : Landing) : Prop
  | stay (hname : name = [] ∨ name = ['.']) (h : d.steps purpose next here rest = .ok l) :
      Takes d purpose next here name rest l
  | above (hname : name = ['.', '.']) (h : d.steps purpose next here.tail rest = .ok l) :
      Takes d purpose next here name rest l
  | down {e : Entry} (hname : IsOrdinary name) (hshort : Text.byteCount name ≤ maxName)
      (he : d.entryAt (name :: here) = some e) (hlink : ∀ target, e ≠ .link target)
      (h : d.steps purpose next (name :: here) rest = .ok l) : Takes d purpose next here name rest l
  | follow {target : Text} (hname : IsOrdinary name) (hshort : Text.byteCount name ≤ maxName)
      (he : d.entryAt (name :: here) = some (.link target)) (htarget : target ≠ [])
      (h : next (targetStart here target) (Path.names target ++ rest) = .ok l) :
      Takes d purpose next here name rest l
  | absent (hname : IsOrdinary name) (hshort : Text.byteCount name ≤ maxName)
      (hnone : d.entryAt (name :: here) = none) (hrest : rest = [])
      (hl : l = .absent (name :: here)) : Takes d purpose next here name rest l

theorem takes_of_steps {purpose : Purpose} {next : Place → List Name → Except Errno Landing}
    {here : Place} {name : Name} {rest : List Name} {l : Landing}
    (h : d.steps purpose next here (name :: rest) = .ok l) :
    d.entryAt here = some .directory ∧ Takes d purpose next here name rest l := by
  unfold steps at h
  split at h
  · exact absurd h (by simp)
  next hdir =>
  refine ⟨Decidable.not_not.mp hdir, ?_⟩
  split at h
  · next hname => exact .stay hname h
  next hstay =>
  split at h
  · next hname => exact .above hname h
  next habove =>
  split at h
  · exact absurd h (by simp)
  split at h
  · exact absurd h (by simp)
  next hshort =>
  have hname : IsOrdinary name := ⟨fun e => hstay (.inl e), fun e => hstay (.inr e), habove⟩
  have hshort : Text.byteCount name ≤ maxName := Nat.le_of_not_lt hshort
  split at h
  · next target he =>
    split at h
    · exact absurd h (by simp)
    · next htarget => exact .follow hname hshort he htarget h
  · next e hlink he => exact .down hname hshort he hlink h
  · next hnone =>
    split at h
    · next hrest => exact .absent hname hshort hnone hrest (Except.ok.inj h).symm
    · exact absurd h (by simp)

/-- Steps that arrive were led there, if what comes after a link was. -/
theorem leads_of_steps {purpose : Purpose} {links : Nat} {q : Place}
    {next : Place → List Name → Except Errno Landing}
    (hnext : ∀ here names, next here names = .ok (.present q) →
      ∃ k, k + 1 ≤ links ∧ Leads d k here names q) (names : List Name) (here : Place)
    (h : d.steps purpose next here names = .ok (.present q)) :
    ∃ k ≤ links, Leads d k here names q := by
  induction names generalizing here with
  | nil =>
    obtain rfl := Landing.present.inj (Except.ok.inj h)
    exact ⟨0, Nat.zero_le _, .arrived here⟩
  | cons name rest ih =>
    obtain ⟨hdir, htakes⟩ := takes_of_steps h
    cases htakes with
    | stay hname h =>
      obtain ⟨k, hk, hl⟩ := ih here h
      exact ⟨k, hk, .stay hdir hname hl⟩
    | above hname h =>
      obtain ⟨k, hk, hl⟩ := ih here.tail h
      exact ⟨k, hk, hname ▸ .above hdir hl⟩
    | down hname hshort he hlink h =>
      obtain ⟨k, hk, hl⟩ := ih (name :: here) h
      exact ⟨k, hk, .down hdir hname hshort he hlink hl⟩
    | follow hname hshort he htarget h =>
      obtain ⟨k, hk, hl⟩ := hnext _ _ h
      exact ⟨k + 1, hk, .follow hdir hname hshort he htarget hl⟩
    | absent _ _ _ _ hl => exact absurd hl (by simp)

/-- A walk that arrives at something was led there. -/
theorem leads_of_walk {purpose : Purpose} {links : Nat} {here q : Place} {names : List Name}
    (h : d.walk purpose links here names = .ok (.present q)) :
    ∃ k ≤ links, Leads d k here names q := by
  induction links generalizing here names with
  | zero =>
    rw [walk_eq_steps] at h
    exact leads_of_steps (fun _ _ h => absurd h (by simp [onward])) names here h
  | succ links ih =>
    rw [walk_eq_steps] at h
    refine leads_of_steps (fun _ _ h => ?_) names here h
    obtain ⟨k, hk, hl⟩ := ih h
    exact ⟨k, Nat.succ_le_succ hk, hl⟩

/-- Names that lead somewhere are walked to their end. -/
theorem Leads.walk {k : Nat} {here q : Place} {names : List Name} (h : Leads d k here names q) :
    ∀ {links : Nat}, k ≤ links → d.walk .find links here names = .ok (.present q) := by
  induction h with
  | arrived here =>
    intro links _
    rw [walk_eq_steps]
    rfl
  | stay hdir hname _ ih =>
    intro links hk
    rw [walk_eq_steps, steps, if_neg (not_not.mpr hdir), if_pos hname, ← walk_eq_steps]
    exact ih hk
  | above hdir _ ih =>
    intro links hk
    rw [walk_eq_steps, steps, if_neg (not_not.mpr hdir), if_neg (by decide), if_pos rfl,
      ← walk_eq_steps]
    exact ih hk
  | @down k here name rest q e hdir hname hshort he hlink _ ih =>
    intro links hk
    have hstay : ¬(name = [] ∨ name = ['.']) := not_or.mpr ⟨hname.1, hname.2.1⟩
    rw [walk_eq_steps, steps, if_neg (not_not.mpr hdir), if_neg hstay, if_neg hname.2.2,
      if_neg (by simp), if_neg (Nat.not_lt.mpr hshort), he]
    cases e with
    | link target => exact absurd rfl (hlink target)
    | directory | file n | pipe => rw [← walk_eq_steps]; exact ih hk
  | @follow k here name rest q target hdir hname hshort he htarget _ ih =>
    intro links hk
    have hstay : ¬(name = [] ∨ name = ['.']) := not_or.mpr ⟨hname.1, hname.2.1⟩
    rw [walk_eq_steps, steps, if_neg (not_not.mpr hdir), if_neg hstay, if_neg hname.2.2,
      if_neg (by simp), if_neg (Nat.not_lt.mpr hshort), he]
    simp only [if_neg htarget]
    cases links with
    | zero => exact absurd hk (Nat.not_succ_le_zero k)
    | succ links => exact ih (Nat.le_of_succ_le_succ hk)

/-- **The walk and the relation agree on where a path arrives.** -/
theorem walk_eq_present_iff {links : Nat} {here q : Place} {names : List Name} :
    d.walk .find links here names = .ok (.present q) ↔ ∃ k ≤ links, Leads d k here names q :=
  ⟨leads_of_walk, fun ⟨_, hk, h⟩ => h.walk hk⟩

/-- Names lead to one place. -/
theorem Leads.unique {j k : Nat} {here p q : Place} {names : List Name}
    (h : Leads d j here names p) (h' : Leads d k here names q) : p = q := by
  have hp := h.walk (Nat.le_max_left j k)
  have hq := h'.walk (Nat.le_max_right j k)
  rw [hp, Except.ok.injEq, Landing.present.injEq] at hq
  exact hq

theorem find_eq_ok_iff {here q : Place} {names : List Name} :
    d.find here names = .ok q ↔ ∃ k ≤ maxLinks, Leads d k here names q := by
  rw [← walk_eq_present_iff, find]
  cases d.walk .find maxLinks here names with
  | error e => simp
  | ok l => cases l <;> simp

/-! ## 3. Cutting the names in two -/

/-- From where the first names lead, the others lead on. -/
theorem Leads.append {j k : Nat} {here mid q : Place} {names rest : List Name}
    (h : Leads d j here names mid) (hrest : Leads d k mid rest q) :
    Leads d (j + k) here (names ++ rest) q := by
  induction h with
  | arrived here => rwa [Nat.zero_add]
  | stay hdir hname _ ih => exact .stay hdir hname (ih hrest)
  | above hdir _ ih => exact .above hdir (ih hrest)
  | down hdir hname hshort he hlink _ ih => exact .down hdir hname hshort he hlink (ih hrest)
  | follow hdir hname hshort he htarget _ ih =>
    have ih := ih hrest
    rw [List.append_assoc] at ih
    rw [Nat.add_right_comm]
    exact .follow hdir hname hshort he htarget ih

/-- What leads through all names leads through the first of them. -/
theorem Leads.split {k : Nat} {here q : Place} {all : List Name} (h : Leads d k here all q) :
    ∀ {names rest : List Name}, all = names ++ rest →
      ∃ i j mid, Leads d i here names mid ∧ Leads d j mid rest q ∧ i + j = k := by
  induction h with
  | arrived here =>
    intro names rest hall
    obtain ⟨rfl, rfl⟩ := List.append_eq_nil_iff.mp hall.symm
    exact ⟨0, 0, here, .arrived here, .arrived here, rfl⟩
  | @stay k here name rest' q hdir hname h ih =>
    intro names rest hall
    cases names with
    | nil =>
      rw [List.nil_append] at hall
      exact ⟨0, k, here, .arrived here, hall ▸ .stay hdir hname h, Nat.zero_add k⟩
    | cons m names =>
      obtain ⟨hm, hrest⟩ := List.cons.inj hall
      subst hm
      obtain ⟨i, j, mid, h1, h2, hk⟩ := ih hrest
      exact ⟨i, j, mid, .stay hdir hname h1, h2, hk⟩
  | @above k here rest' q hdir h ih =>
    intro names rest hall
    cases names with
    | nil =>
      rw [List.nil_append] at hall
      exact ⟨0, k, here, .arrived here, hall ▸ .above hdir h, Nat.zero_add k⟩
    | cons m names =>
      obtain ⟨hm, hrest⟩ := List.cons.inj hall
      subst hm
      obtain ⟨i, j, mid, h1, h2, hk⟩ := ih hrest
      exact ⟨i, j, mid, .above hdir h1, h2, hk⟩
  | @down k here name rest' q e hdir hname hshort he hlink h ih =>
    intro names rest hall
    cases names with
    | nil =>
      rw [List.nil_append] at hall
      exact ⟨0, k, here, .arrived here, hall ▸ .down hdir hname hshort he hlink h, Nat.zero_add k⟩
    | cons m names =>
      obtain ⟨hm, hrest⟩ := List.cons.inj hall
      subst hm
      obtain ⟨i, j, mid, h1, h2, hk⟩ := ih hrest
      exact ⟨i, j, mid, .down hdir hname hshort he hlink h1, h2, hk⟩
  | @follow k here name rest' q target hdir hname hshort he htarget h ih =>
    intro names rest hall
    cases names with
    | nil =>
      rw [List.nil_append] at hall
      exact ⟨0, k + 1, here, .arrived here, hall ▸ .follow hdir hname hshort he htarget h,
        Nat.zero_add _⟩
    | cons m names =>
      obtain ⟨hm, hrest⟩ := List.cons.inj hall
      subst hm
      have hall' : Path.names target ++ rest' = (Path.names target ++ names) ++ rest := by
        rw [List.append_assoc]
        exact congrArg (Path.names target ++ ·) hrest
      obtain ⟨i, j, mid, h1, h2, hk⟩ := ih hall'
      exact ⟨i + 1, j, mid, .follow hdir hname hshort he htarget h1, h2, by omega⟩

/-! ## 4. The same walk on another disk -/

/-- The directories and links of a disk, and what lies at `q`, are the same on another disk. -/
def Keeps (d d' : Disk) (q : Place) : Prop :=
  ∀ x e, d.entryAt x = some e → (e = .directory ∨ (∃ target, e = .link target) ∨ x = q) →
    d'.entryAt x = some e

theorem Keeps.directory {d' : Disk} {q : Place} (h : Keeps d d' q) {x : Place}
    (hx : d.entryAt x = some .directory) : d'.entryAt x = some .directory :=
  h x _ hx (.inl rfl)

/-- What is neither a directory nor a link ends a walk. -/
theorem Leads.eq_of_leaf {k : Nat} {here q : Place} {names : List Name}
    (h : Leads d k here names q) (hhere : d.entryAt here ≠ some .directory) :
    here = q ∧ names = [] := by
  cases h with
  | arrived => exact ⟨rfl, rfl⟩
  | stay hdir | above hdir | down hdir | follow hdir => exact absurd hdir hhere

/-- **A walk looks at nothing but directories, links and the place where it arrives.**  On a disk
that keeps those it arrives at the same place. -/
theorem Leads.of_keeps {d' : Disk} {k : Nat} {here q : Place} {names : List Name}
    (h : Leads d k here names q) (hkeep : Keeps d d' q) : Leads d' k here names q := by
  induction h with
  | arrived here => exact .arrived here
  | stay hdir hname _ ih => exact .stay (hkeep.directory hdir) hname (ih hkeep)
  | above hdir _ ih => exact .above (hkeep.directory hdir) (ih hkeep)
  | @down k here name rest q e hdir hname hshort he hlink h ih =>
    refine .down (hkeep.directory hdir) hname hshort (hkeep _ e he ?_) hlink (ih hkeep)
    by_cases hleaf : d.entryAt (name :: here) = some .directory
    · rw [he] at hleaf
      exact .inl (Option.some.inj hleaf)
    · exact .inr (.inr (h.eq_of_leaf hleaf).1)
  | follow hdir hname hshort he htarget _ ih =>
    exact .follow (hkeep.directory hdir) hname hshort (hkeep _ _ he (.inr (.inl ⟨_, rfl⟩))) htarget
      (ih hkeep)

theorem find_of_keeps {d' : Disk} {here q : Place} {names : List Name}
    (h : d.find here names = .ok q) (hkeep : Keeps d d' q) : d'.find here names = .ok q := by
  obtain ⟨k, hk, hl⟩ := find_eq_ok_iff.mp h
  exact find_eq_ok_iff.mpr ⟨k, hk, hl.of_keeps hkeep⟩

/-- **Walks depend on what lies at the places alone.** -/
theorem walk_congr {d' : Disk} (h : ∀ x, d'.entryAt x = d.entryAt x) (purpose : Purpose)
    (links : Nat) (here : Place) (names : List Name) :
    d'.walk purpose links here names = d.walk purpose links here names := by
  have hsteps : ∀ {follow follow' : Place → List Name → Except Errno Landing},
      (∀ here names, follow' here names = follow here names) → ∀ here names,
        d'.steps purpose follow' here names = d.steps purpose follow here names := by
    intro follow follow' hfollow here names
    induction names generalizing here with
    | nil => rfl
    | cons name rest ih => simp only [steps, ih, h, hfollow]
  induction links generalizing here names with
  | zero => exact hsteps (fun _ _ => rfl) here names
  | succ links ih => exact hsteps ih here names

theorem find_congr {d' : Disk} (h : ∀ x, d'.entryAt x = d.entryAt x) (here : Place)
    (names : List Name) : d'.find here names = d.find here names := by
  rw [find, find, walk_congr h]

theorem findLast_congr {d' : Disk} (h : ∀ x, d'.entryAt x = d.entryAt x) (here : Place)
    (names : List Name) (last : Name) :
    d'.findLast here names last = d.findLast here names last := by
  simp only [findLast, find_congr h, h]

/-! ## 5. Places -/

theorem IsName.isOrdinary {name : Name} (h : IsName name) : IsOrdinary name :=
  ⟨h.ne_nil, h.ne_here, h.ne_above⟩

/-- A walk arrives where something lies that is no link. -/
theorem Leads.arrives (hd : d.IsTree) {k : Nat} {here q : Place} {names : List Name}
    (h : Leads d k here names q)
    (hhere : ∃ e, d.entryAt here = some e ∧ ∀ target, e ≠ .link target) :
    ∃ e, d.entryAt q = some e ∧ ∀ target, e ≠ .link target := by
  induction h with
  | arrived => exact hhere
  | stay _ _ _ ih => exact ih hhere
  | @above k here rest q hdir _ ih =>
    refine ih ⟨.directory, ?_, by simp⟩
    cases here with
    | nil => rfl
    | cons name outer => exact hd.parent hdir
  | down _ _ _ he hlink _ ih => exact ih ⟨_, he, hlink⟩
  | @follow k here name rest q target hdir _ _ _ _ _ ih =>
    refine ih ⟨.directory, ?_, by simp⟩
    unfold targetStart
    split
    · rfl
    · exact hdir

/-- **The names of a place lead to it from the root**, unless a link lies there. -/
theorem leads_place (hd : d.IsTree) {p : Place} {e : Entry} (he : d.entryAt p = some e)
    (hlink : ∀ target, e ≠ .link target) : Leads d 0 [] p.reverse p := by
  induction p generalizing e with
  | nil => exact .arrived []
  | cons name outer ih =>
    have hdir := hd.parent he
    have hname := hd.name he
    rw [List.reverse_cons]
    exact (ih hdir (by simp)).append (.down hdir hname.isOrdinary hname.short he hlink (.arrived _))

theorem find_place (hd : d.IsTree) {p : Place} {e : Entry} (he : d.entryAt p = some e)
    (hlink : ∀ target, e ≠ .link target) : d.find [] p.reverse = .ok p :=
  find_eq_ok_iff.mpr ⟨0, Nat.zero_le _, leads_place hd he hlink⟩

/-- A name in a directory, not followed, is found at its place. -/
theorem findLast_place (hd : d.IsTree) {name : Name} {outer : Place}
    (houter : d.entryAt outer = some .directory) :
    d.findLast [] outer.reverse name =
      if maxName < Text.byteCount name then .error .nameTooLong else .ok (name :: outer) := by
  rw [findLast, find_place hd houter (by simp)]
  simp [houter]

end CompileJournal.Disk
