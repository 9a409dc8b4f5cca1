import CompileJournal.Disk.Real
import CompileJournal.Proofs.Disk.Lookup

/-!
# The real path is the place

A file is recorded under the real form of the path it was given by, which is found by reading the
path name by name, and not by asking the system where the path leads.  The two must agree, or one
file has two names in the journal.

They do not follow links in the same way: the system counts all links of a lookup, and the real
form counts those inside each other.  So the induction is on the number of links that the lookup
follows.  The target of the first one and the names after it share the links that are left, and
each of the two gets along with fewer.

* `realRoute_of_leads`: where the names lead, the real form ends;
* `SameLinks.realRoute_eq`: what is no link makes no difference to the real form;
* `realRoute_pieces`: a slash at the end of a path makes no difference to its real form.
-/

namespace CompileJournal

/-- The route that is written as the place it stands for. -/
def Route.real (p : Place) : Route := ⟨true, p, p⟩

namespace Disk

variable {d : Disk}

/-! ## 1. Empty names -/

theorem realSteps_filter (d : Disk) (follow : Route → List Name → Route) (r : Route)
    (names : List Name) :
    d.realSteps follow r (names.filter (· ≠ [])) = d.realSteps follow r names := by
  induction names generalizing r with
  | nil => rfl
  | cons name rest ih =>
    by_cases hnil : name = []
    · rw [List.filter_cons_of_neg (by simp [hnil]), ih, hnil]
      simp [realSteps]
    · rw [List.filter_cons_of_pos (by simp [hnil]), realSteps, realSteps]
      simp only [ih]

/-- What a route does at a link, with so many links inside links left. -/
def beyond (d : Disk) : Nat → Route → List Name → Route
  | 0 => fun here _ => here
  | links + 1 => d.realRoute links

theorem realRoute_eq_steps (d : Disk) (links : Nat) :
    d.realRoute links = d.realSteps (d.beyond links) := by
  cases links <;> rfl

theorem realRoute_pieces (d : Disk) (links : Nat) (r : Route) (p : Text) :
    d.realRoute links r (Path.pieces p) = d.realRoute links r (Path.names p) := by
  have hnames : (Path.names p).filter (· ≠ []) = (Path.pieces p).filter (· ≠ []) := by
    unfold Path.names
    simp only
    split
    · rw [List.filter_append, List.filter_filter]
      simp
    · rw [List.filter_filter]
      simp
  rw [realRoute_eq_steps, ← realSteps_filter, ← hnames, realSteps_filter]

/-! ## 2. Links -/

/-- The same links lie at the same places of two disks. -/
def SameLinks (d d' : Disk) : Prop :=
  ∀ x t, d'.entryAt x = some (.link t) ↔ d.entryAt x = some (.link t)

theorem SameLinks.refl (d : Disk) : d.SameLinks d := fun _ _ => Iff.rfl

theorem SameLinks.trans {d' d'' : Disk} (h : d.SameLinks d') (h' : d'.SameLinks d'') :
    d.SameLinks d'' :=
  fun x t => (h' x t).trans (h x t)

theorem linkAt_eq_some {r : Route} {t : Text} :
    d.linkAt r = some t ↔ r.byteCount ≤ maxPath ∧ d.entryAt r.place = some (.link t) := by
  unfold linkAt
  split
  · next hlong => simp [Nat.not_le.mpr hlong]
  next hshort =>
  have hshort := Nat.le_of_not_lt hshort
  split
  · next target he => simp [he, hshort]
  · next hne =>
    refine ⟨fun h => absurd h (by simp), ?_⟩
    rintro ⟨-, he⟩
    exact absurd he (hne t)

theorem SameLinks.linkAt_eq {d' : Disk} (h : d.SameLinks d') (r : Route) :
    d'.linkAt r = d.linkAt r := by
  refine Option.ext fun t => ?_
  rw [linkAt_eq_some, linkAt_eq_some, h r.place t]

/-- **Real paths depend on the links alone.** -/
theorem SameLinks.realRoute_eq {d' : Disk} (h : d.SameLinks d') (links : Nat) (r : Route)
    (names : List Name) : d'.realRoute links r names = d.realRoute links r names := by
  have hsteps : ∀ {follow follow' : Route → List Name → Route},
      (∀ r names, follow' r names = follow r names) → ∀ r names,
        d'.realSteps follow' r names = d.realSteps follow r names := by
    intro follow follow' hfollow r names
    induction names generalizing r with
    | nil => rfl
    | cons name rest ih => simp only [realSteps, ih, h.linkAt_eq, hfollow]
  induction links generalizing r names with
  | zero => exact hsteps (fun _ _ => rfl) r names
  | succ links ih => exact hsteps ih r names

/-- The links of a disk lie at places with a path short enough to be looked up. -/
def HasShortLinks (d : Disk) : Prop :=
  ∀ {x t}, d.entryAt x = some (.link t) → x.byteCount ≤ maxPath

theorem linkAt_real (hd : d.HasShortLinks) {p : Place} {t : Text}
    (hp : d.entryAt p = some (.link t)) : d.linkAt (.real p) = some t := by
  have hshort : ¬maxPath < (Route.real p).byteCount := Nat.not_lt.mpr (hd hp)
  rw [linkAt, if_neg hshort]
  simp only [Route.real, hp]

theorem linkAt_real_of_ne {p : Place} {e : Entry} (hp : d.entryAt p = some e)
    (hlink : ∀ t, e ≠ .link t) : d.linkAt (.real p) = none := by
  unfold linkAt
  split
  · rfl
  · simp only [Route.real, hp]
    cases e with
    | link t => exact absurd rfl (hlink t)
    | directory | file _ | pipe => rfl

/-- Where a link hands over, the route is at the place where its target starts. -/
theorem real_targetStart (here : Place) (target : Text) :
    (if Path.isAbsolute target then .root else Route.real here)
      = Route.real (targetStart here target) := by
  unfold targetStart
  split <;> rfl

/-- **The real form of a path ends where the path leads.** -/
theorem realRoute_of_leads (hd : d.HasShortLinks) {j links : Nat} {here q : Place}
    {names : List Name} (h : Leads d j here names q) (hj : j ≤ links) :
    d.realRoute links (.real here) names = .real q := by
  induction j using Nat.strongRecOn generalizing links here q names with
  | ind j ihlinks =>
  induction names generalizing here with
  | nil =>
    cases h
    rw [realRoute_eq_steps]
    rfl
  | cons name rest ih =>
    rw [realRoute_eq_steps, realSteps]
    cases h with
    | stay _ hname h =>
      rw [if_pos hname, ← realRoute_eq_steps]
      exact ih h
    | above _ h =>
      rw [if_neg (by decide), if_pos rfl, ← realRoute_eq_steps]
      exact ih h
    | down _ hname _ he hlink h =>
      have hnone : d.linkAt ((Route.real here).down name) = none := linkAt_real_of_ne he hlink
      rw [if_neg (not_or.mpr ⟨hname.1, hname.2.1⟩), if_neg hname.2.2, hnone]
      rw [← realRoute_eq_steps]
      exact ih h
    | @follow k _ _ _ _ target _ hname _ he _ h =>
      have hsome : d.linkAt ((Route.real here).down name) = some target := linkAt_real hd he
      obtain ⟨links, rfl⟩ : ∃ m, links = m + 1 := ⟨links - 1, by omega⟩
      obtain ⟨i, j', mid, htarget, hrest, hk⟩ := h.split rfl
      have hfollow : d.realRoute links (.real (targetStart here target)) (Path.pieces target) =
          .real mid := by
        rw [realRoute_pieces]
        exact ihlinks i (by omega) htarget (by omega)
      rw [if_neg (not_or.mpr ⟨hname.1, hname.2.1⟩), if_neg hname.2.2, hsome]
      have hon : d.realRoute (links + 1) (.real mid) rest = .real q :=
        ihlinks j' (by omega) hrest (by omega)
      simp only [beyond, real_targetStart, hfollow]
      exact hon

end Disk

end CompileJournal
