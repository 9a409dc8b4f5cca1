import CompileJournal.Proofs.World.Lookup

/-!
# Writing a text to a path

A path that is opened for writing leads to a file, which is written, or to a place in a directory
where nothing lies, which gets one.  So a text that is written to a path touches free places and
the file that the path leads to, and nothing else.

* `absent_of_walk`, `leads_of_absent`: where a walk ends that finds nothing, and that it leads there
  as soon as something lies there;
* `writeText_bounded`: the bound on writing;
* `writeText_ok`: what a written text leaves, unless the path leads to a pipe.
-/

namespace CompileJournal

open Disk (IsClean IsName)

namespace Disk

variable {d : Disk}

/-- A place where a file can be made: nothing lies there, in a directory, under a name that can be
a name. -/
def IsFree (d : Disk) (p : Place) : Prop :=
  ∃ name outer, p = name :: outer ∧ IsName name ∧ d.entryAt outer = some .directory ∧
    d.entryAt p = none

theorem absent_of_steps (hd : d.IsTree) {purpose : Purpose} {p : Place}
    {next : Place → List Name → Except Errno Landing}
    (hnext : ∀ {here names}, (∀ m ∈ names, Path.IsPiece m) →
      next here names = .ok (.absent p) → d.IsFree p)
    {names : List Name} {here : Place} (hnames : ∀ m ∈ names, Path.IsPiece m)
    (h : d.steps purpose next here names = .ok (.absent p)) : d.IsFree p := by
  induction names generalizing here with
  | nil => exact absurd h (by simp [steps])
  | cons name rest ih =>
    have hrest : ∀ m ∈ rest, Path.IsPiece m := fun m hm => hnames m (List.mem_cons_of_mem _ hm)
    obtain ⟨hdir, htakes⟩ := takes_of_steps h
    cases htakes with
    | stay _ h | above _ h | down _ _ _ _ h => exact ih hrest h
    | follow _ _ he _ h =>
      refine hnext (fun m hm => ?_) h
      rcases List.mem_append.mp hm with hm | hm
      · exact Path.isPiece_of_mem_names (hd.target he) hm
      · exact hrest m hm
    | absent hname hshort hnone _ hl =>
      obtain rfl := Landing.absent.inj hl
      have hclean : IsClean name :=
        (hnames name List.mem_cons_self).isClean hname.1 hname.2.1 hname.2.2
      exact ⟨name, here, rfl, ⟨hclean, hshort⟩, hdir, hnone⟩

/-- A walk that finds nothing ends where a file can be made. -/
theorem absent_of_walk (hd : d.IsTree) {purpose : Purpose} {links : Nat} {here p : Place}
    {names : List Name} (hnames : ∀ m ∈ names, Path.IsPiece m)
    (h : d.walk purpose links here names = .ok (.absent p)) : d.IsFree p := by
  induction links generalizing here names with
  | zero => exact absent_of_steps hd (fun _ h => absurd h (by simp)) hnames h
  | succ links ih => exact absent_of_steps hd ih hnames h

theorem leads_of_absent_steps {d' : Disk} {p : Place} {e : Entry}
    (hkeep : ∀ {x e}, d.entryAt x = some e → d'.entryAt x = some e)
    (hp : d'.entryAt p = some e) (hlink : ∀ target, e ≠ .link target) {purpose : Purpose}
    {links : Nat} {next : Place → List Name → Except Errno Landing}
    (hnext : ∀ {here names}, next here names = .ok (.absent p) →
      ∃ k, k + 1 ≤ links ∧ Leads d' k here names p)
    {names : List Name} {here : Place} (h : d.steps purpose next here names = .ok (.absent p)) :
    ∃ k ≤ links, Leads d' k here names p := by
  induction names generalizing here with
  | nil => exact absurd h (by simp [steps])
  | cons name rest ih =>
    obtain ⟨hthere, htakes⟩ := takes_of_steps h
    have hdir : d'.entryAt here = some .directory := hkeep hthere
    cases htakes with
    | stay hname h =>
      obtain ⟨k, hk, hleads⟩ := ih h
      exact ⟨k, hk, .stay hdir hname hleads⟩
    | above hname h =>
      obtain ⟨k, hk, hleads⟩ := ih h
      exact ⟨k, hk, hname ▸ .above hdir hleads⟩
    | down hname hshort he hlink' h =>
      obtain ⟨k, hk, hleads⟩ := ih h
      exact ⟨k, hk, .down hdir hname hshort (hkeep he) hlink' hleads⟩
    | follow hname hshort he htarget h =>
      obtain ⟨k, hk, hleads⟩ := hnext h
      exact ⟨k + 1, hk, .follow hdir hname hshort (hkeep he) htarget hleads⟩
    | absent hname hshort _ hrest hl =>
      obtain rfl := Landing.absent.inj hl
      exact ⟨0, Nat.zero_le _, hrest ▸ .down hdir hname hshort hp hlink (.arrived _)⟩

/-- A walk that finds nothing leads where it ends, as soon as something lies there. -/
theorem leads_of_absent {d' : Disk} {p : Place} {e : Entry}
    (hkeep : ∀ {x e}, d.entryAt x = some e → d'.entryAt x = some e)
    (hp : d'.entryAt p = some e) (hlink : ∀ target, e ≠ .link target) {purpose : Purpose}
    {links : Nat} {here : Place} {names : List Name}
    (h : d.walk purpose links here names = .ok (.absent p)) :
    ∃ k ≤ links, Leads d' k here names p := by
  induction links generalizing here names with
  | zero => exact leads_of_absent_steps hkeep hp hlink (fun h => absurd h (by simp)) h
  | succ links ih =>
    refine leads_of_absent_steps hkeep hp hlink (fun hnext => ?_) h
    obtain ⟨k, hk, hleads⟩ := ih hnext
    exact ⟨k, Nat.succ_le_succ hk, hleads⟩

end Disk

namespace World

variable {w w' : World} {path : Text}

/-! ## 1. What is touched -/

/-- The path leads to the file of a number. -/
def LeadsTo (w : World) (path : Text) (n : FileNumber) : Prop :=
  ∃ q, w.find path = .ok ⟨q, 0⟩ ∧ w.disk.entryAt q = some (.file n)

/-- Where the names of a path lead from the place at which its lookup starts. -/
theorem find_of_leads {s : Spot} {names : List Name} {q : Place}
    (hstart : w.start path = .ok (s, names)) (hlost : s.lost = 0)
    (hleads : ∃ k ≤ Disk.maxLinks, w.disk.Leads k s.place names q) :
    w.find path = .ok ⟨q, 0⟩ := by
  rw [find, hstart]
  simp only [findFrom]
  rw [if_pos hlost, Disk.find_eq_ok_iff.mpr hleads]
  rfl

/-- A file that is opened for writing is the one the path leads to, or it is new. -/
theorem openForWriting_ok (hw : w.IsSound) {n? : Option FileNumber}
    (h : w.openForWriting path = .ok (w', n?)) :
    w.Grows w' ∧ ∀ n, n? = some n → w.LeadsTo path n ∨
      ∃ x, w.disk.entryAt x = none ∧ w'.disk.entryAt x = some (.file n) := by
  unfold openForWriting at h
  split at h
  · exact absurd h (by simp)
  split at h
  · exact absurd h (by simp)
  next s names hstart =>
  split at h
  · exact absurd h (by simp)
  next hlost =>
  split at h
  · exact absurd h (by simp)
  · next p hwalk =>
    cases h
    obtain ⟨name, outer, rfl, hname, houter, hnone⟩ :=
      Disk.absent_of_walk hw.tree (start_ok hw hstart).2 hwalk
    refine ⟨⟨.setFile hw.tree hname houter hnone hnone _, rfl⟩, ?_⟩
    rintro n ⟨⟩
    refine .inr ⟨name :: outer, hnone, ?_⟩
    rw [withDisk, Disk.entryAt_addContent, Disk.entryAt_set _ (List.cons_ne_nil name outer),
      if_pos rfl]
  · next p hwalk =>
    have hfind := find_of_leads hstart (Decidable.not_not.mp hlost) (Disk.leads_of_walk hwalk)
    split at h
    · next n hfile =>
      cases h
      refine ⟨.refl hw, ?_⟩
      rintro m ⟨⟩
      exact .inl ⟨p, hfind, hfile⟩
    · cases h
      exact ⟨.refl hw, by simp⟩
    · exact absurd h (by simp)

/-- **Writing a text touches free places and the file that the path leads to.** -/
theorem writeText_bounded (hw : w.IsSound) {t : Text} (h : w.writeText path t = .ok w') :
    w.ChangesOnly (fun x => w.disk.entryAt x = none) (w.LeadsTo path) w' := by
  unfold writeText at h
  split at h
  · exact absurd h (by simp)
  · next w₁ hopen =>
    cases h
    exact (openForWriting_ok hw hopen).1.mono (fun _ h => h) fun _ h => h.elim
  · next w₁ n hopen =>
    cases h
    obtain ⟨hgrows, hfile⟩ := openForWriting_ok hw hopen
    refine ChangesOnly.trans (hgrows.mono (fun _ h => h) fun _ h => h.elim)
      ⟨.setContent hgrows.disk.tree _ ?_, rfl⟩
    exact hfile n rfl

/-! ## 2. What is left -/

/-- The path leads to no pipe. -/
def LeadsToNoPipe (w : World) (path : Text) : Prop :=
  ∀ q, w.find path = .ok ⟨q, 0⟩ → w.disk.entryAt q ≠ some .pipe

/-- What is left of a text that was written to a path: the file there, which was there before or is
new, holds the text, and everything else is as it was. -/
structure WritesTo (w : World) (path t : Text) (q : Place) (n : FileNumber) (w' : World) :
    Prop where
  find : w'.find path = .ok ⟨q, 0⟩
  file : w'.disk.entryAt q = some (.file n)
  text : w'.disk.contentOf n = .text t
  entries : ∀ {x}, x ≠ q → w'.disk.entryAt x = w.disk.entryAt x
  contents : ∀ {m}, m ≠ n → w'.disk.contentOf m = w.disk.contentOf m
  before : (w.find path = .ok ⟨q, 0⟩ ∧ w.disk.entryAt q = some (.file n)) ∨
    (w.disk.entryAt q = none ∧ w.disk.contents.length ≤ n)
  rest : w' = w.withDisk w'.disk

/-- A text written over a file. -/
theorem writesTo_of_file (hw : w.IsSound) {q : Place} {n : FileNumber}
    (hfind : w.find path = .ok ⟨q, 0⟩) (hentry : w.disk.entryAt q = some (.file n)) (t : Text) :
    WritesTo w path t q n (w.withDisk (w.disk.setContent n (.text t))) := by
  have hkept : (w.withDisk (w.disk.setContent n (.text t))).find path = .ok ⟨q, 0⟩ :=
    find_kept (w := w) rfl hfind fun x e he _ => (Disk.entryAt_setContent ..).trans he
  exact ⟨hkept, (Disk.entryAt_setContent ..).trans hentry,
    Disk.contentOf_setContent_self _ (hw.tree.number hentry) _,
    fun _ => Disk.entryAt_setContent .., fun hm => Disk.contentOf_setContent_ne _ hm _,
    .inl ⟨hfind, hentry⟩, rfl⟩

/-- A text written to a file that is made for it. -/
theorem writesTo_of_absent (hw : w.IsSound) {s : Spot} {names : List Name}
    (hstart : w.start path = .ok (s, names)) (hlost : s.lost = 0) {q : Place}
    (hwalk : w.disk.walk .create Disk.maxLinks s.place names = .ok (.absent q)) (t : Text) :
    WritesTo w path t q w.disk.nextNumber (w.withDisk (((w.disk.set q
      (.file w.disk.nextNumber)).addContent (.text [])).setContent w.disk.nextNumber
        (.text t))) := by
  obtain ⟨name, outer, rfl, hname, houter, hnone⟩ :=
    Disk.absent_of_walk hw.tree (start_ok hw hstart).2 hwalk
  have hentry : ∀ x, (((w.disk.set (name :: outer) (.file w.disk.nextNumber)).addContent
      (.text [])).setContent w.disk.nextNumber (.text t)).entryAt x =
        if x = name :: outer then some (.file w.disk.nextNumber) else w.disk.entryAt x := by
    intro x
    rw [Disk.entryAt_setContent, Disk.entryAt_addContent,
      Disk.entryAt_set _ (List.cons_ne_nil name outer)]
  have hkeep : ∀ {x e}, w.disk.entryAt x = some e → (((w.disk.set (name :: outer)
      (.file w.disk.nextNumber)).addContent (.text [])).setContent w.disk.nextNumber
        (.text t)).entryAt x = some e := by
    intro x e he
    refine (hentry x).trans ((if_neg ?_).trans he)
    rintro rfl
    rw [hnone] at he
    exact absurd he (by simp)
  have hleads := Disk.leads_of_absent hkeep ((hentry _).trans (if_pos rfl)) (by simp) hwalk
  refine ⟨find_of_leads ((start_eq rfl path).trans hstart) hlost hleads,
    (hentry _).trans (if_pos rfl), Disk.contentOf_setContent_self _ ?_ _,
    fun hx => (hentry _).trans (if_neg hx), fun hm => ?_, .inr ⟨hnone, Nat.le_refl _⟩, rfl⟩
  · simp [Disk.nextNumber]
  · exact (Disk.contentOf_setContent_ne _ hm _).trans (Disk.contentOf_addContent_ne _ hm _)

/-- **A text that is written to a path is all that changes**, unless a pipe takes it. -/
theorem writeText_ok (hw : w.IsSound) (hpipe : w.LeadsToNoPipe path) {t : Text}
    (h : w.writeText path t = .ok w') : ∃ q n, WritesTo w path t q n w' := by
  unfold writeText openForWriting at h
  by_cases hnul : Text.nul ∈ path
  · rw [if_pos hnul] at h
    exact absurd h (by simp)
  rw [if_neg hnul] at h
  cases hstart : w.start path with
  | error e =>
    rw [hstart] at h
    exact absurd h (by simp)
  | ok r =>
  obtain ⟨s, names⟩ := r
  rw [hstart] at h
  by_cases hlost : s.lost = 0
  case neg => exact absurd h (by simp [hlost])
  simp only [hlost, ne_eq, not_true_eq_false, if_false] at h
  cases hwalk : w.disk.walk .create Disk.maxLinks s.place names with
  | error e =>
    rw [hwalk] at h
    exact absurd h (by simp)
  | ok landing =>
  rw [hwalk] at h
  cases landing with
  | present q =>
    have hfind := find_of_leads hstart hlost (Disk.leads_of_walk hwalk)
    cases hentry : w.disk.entryAt q with
    | none => exact absurd h (by simp [hentry])
    | some e =>
    cases e with
    | directory => exact absurd h (by simp [hentry])
    | link target => exact absurd h (by simp [hentry])
    | pipe => exact absurd hentry (hpipe q hfind)
    | file n =>
      simp only [hentry, Except.ok.injEq] at h
      exact ⟨q, n, h ▸ writesTo_of_file hw hfind hentry t⟩
  | absent q =>
    simp only [Except.ok.injEq] at h
    exact ⟨q, _, h ▸ writesTo_of_absent hw hstart hlost hwalk t⟩

/-- What was written can be read. -/
theorem WritesTo.readText {t : Text} {q : Place} {n : FileNumber} (h : WritesTo w path t q n w') :
    w'.readText path = .ok t := by
  have hnul : Text.nul ∉ path := by
    intro hnul
    have hfind := h.find
    rw [World.find, start, if_pos (.inr hnul)] at hfind
    exact absurd hfind (by simp)
  have hentry : w'.entryAt ⟨q, 0⟩ = some (.file n) := h.file
  rw [World.readText, if_neg hnul, h.find]
  simp only [hentry, h.text]

end World

end CompileJournal
