import CompileJournal.Proofs.Commands.Interleaving
import CompileJournal.Proofs.Commands.Refusals
import CompileJournal.Proofs.Journal.Accepting
import Mathlib.Data.List.Perm.Basic

/-!
# How far a recording comes

A recording resolves an input and puts its record, and then the next one.  It can stop at any input,
because the input leads nowhere or because the store refuses the record.  The inputs before have
their rows then, and no other file has got another one.

If it has come to its end it can be made again, with the same inputs or with the same ones in
another order, and the rows stay.  That is not plain from the steps: a put may move what lies beside
the database, an input among it, and whether it succeeds depends on what lies there.  But the first
put that succeeds has settled all that, whichever record it was, and no later one moves anything.

* `RecordsFiles`, `EndsWith`: the inputs that are recorded, and what follows them;
* `SetsRows`: the rows of some files set, and no other;
* `RecordsFiles.setsRows`: what the records leave;
* `RecordsFiles.settled`: a store refuses the first record or none;
* `record_exact`: how far a recording comes, and that it can be made again.
-/

namespace CompileJournal

/-! ## 1. The inputs that are recorded -/

/-- Inputs that are recorded one after the other, the files they lead to, and the world that is
left.  Each input is resolved in the world that those before it have left. -/
inductive RecordsFiles (s : Store) (i : Invocation) :
    World → List Text → List Text → World → Prop
  | nil {w : World} : RecordsFiles s i w [] [] w
  | cons {w v w' : World} {input file : Text} {inputs files : List Text} :
      w.resolve i.workdir input = .ok file → s.put w (i.recordFor file) = (v, .ok ()) →
      RecordsFiles s i v inputs files w' →
      RecordsFiles s i w (input :: inputs) (file :: files) w'

/-- What a recording of some files reports. -/
def Invocation.reports (i : Invocation) (files : List Text) : List Event :=
  files.flatMap fun file => [.stored file, .recorded i.driver file]

/-- How a recording ends that has recorded some files and come to the world `v`, with the given
inputs left. -/
inductive EndsWith (s : Store) (i : Invocation) (files : List Text) (v : World) :
    List Text → Outcome (List Text) → Prop
  | all : EndsWith s i files v [] ⟨v, i.reports files, .ok files⟩
  /-- The next input leads nowhere. -/
  | unresolved {input : Text} {rest : List Text} :
      v.exists? (Path.join i.workdir input) = false →
      EndsWith s i files v (input :: rest) ⟨v, i.reports files, .error (.unresolved input)⟩
  /-- The next input leads somewhere from the current directory, and that has been removed. -/
  | removed {input : Text} {rest : List Text} :
      v.exists? (Path.join i.workdir input) = true →
      Path.isAbsolute (Path.join i.workdir input) = false → v.cwd.lost ≠ 0 →
      EndsWith s i files v (input :: rest) ⟨v, i.reports files, .error (.system .notFound none)⟩
  /-- The store refuses the record of the next input. -/
  | refused {v' : World} {input file : Text} {rest : List Text} {e : Failure} :
      v.resolve i.workdir input = .ok file → s.put v (i.recordFor file) = (v', .error e) →
      EndsWith s i files v (input :: rest) ⟨v', i.reports files, .error e⟩

variable {w v w' : World} {s : Store} {c : Connection} {i : Invocation}
  {input file : Text} {inputs rest files : List Text}

/-- One file more in front of those that were recorded. -/
theorem EndsWith.cons {o : Outcome (List Text)} (h : EndsWith s i files v rest o) (file : Text) :
    EndsWith s i (file :: files) v rest
      ⟨o.world, [.stored file, .recorded i.driver file] ++ o.events, o.result.map (file :: ·)⟩ := by
  cases h with
  | all => exact .all
  | unresolved hexists => exact .unresolved hexists
  | removed hexists hrelative hlost => exact .removed hexists hrelative hlost
  | refused hresolve hput => exact .refused hresolve hput

/-- A recording that has come to its end. -/
theorem EndsWith.eq_of_ok {o : Outcome (List Text)} (h : EndsWith s i files v rest o)
    {files' : List Text} (hok : o.result = .ok files') :
    rest = [] ∧ files' = files ∧ o.world = v := by
  cases h with
  | all => exact ⟨rfl, (Except.ok.inj hok).symm, rfl⟩
  | unresolved | removed | refused => exact absurd hok (by simp)

/-- An input that is not resolved ends a recording. -/
theorem endsWith_of_resolve {e : Failure} (h : v.resolve i.workdir input = .error e)
    (rest : List Text) : EndsWith s i [] v (input :: rest) ⟨v, [], .error e⟩ := by
  unfold World.resolve at h
  cases hexists : v.exists? (Path.join i.workdir input) with
  | false =>
    rw [hexists, if_neg (by simp)] at h
    obtain rfl := Except.error.inj h
    exact .unresolved hexists
  | true =>
    rw [hexists, if_pos rfl, World.realPath] at h
    split at h
    · exact absurd h (by simp)
    · next hrelative =>
      obtain ⟨hlost, rfl⟩ := World.currentDirectory_error (map_eq_error.mp h)
      exact .removed hexists (by simpa using hrelative) hlost

/-- **A recording records its first inputs** and ends with all of them, or at the next one. -/
theorem record_ends (s : Store) (i : Invocation) (w : World) (inputs : List Text) :
    ∃ done rest files v, inputs = done ++ rest ∧ RecordsFiles s i w done files v ∧
      EndsWith s i files v rest (record s i w inputs) := by
  induction inputs generalizing w with
  | nil => exact ⟨[], [], [], w, rfl, .nil, .all⟩
  | cons input rest ih =>
    rw [record]
    unfold recordInput
    cases hresolve : w.resolve i.workdir input with
    | error e => exact ⟨[], input :: rest, [], w, rfl, .nil, endsWith_of_resolve hresolve rest⟩
    | ok file =>
    simp only
    cases hput : s.put w (i.recordFor file) with
    | mk v r =>
    cases r with
    | error e => exact ⟨[], input :: rest, [], w, rfl, .nil, .refused hresolve hput⟩
    | ok u =>
      obtain ⟨done, rest', files, w', hsplit, hfiles, hends⟩ := ih v
      exact ⟨input :: done, rest', file :: files, w', by rw [hsplit, List.cons_append],
        .cons hresolve hput hfiles, hends.cons file⟩

/-- A recording that has come to its end has recorded all inputs. -/
theorem recordsFiles_of_ok (hok : (record s i w inputs).result = .ok files) :
    RecordsFiles s i w inputs files (record s i w inputs).world := by
  obtain ⟨done, rest, files', v, hsplit, hfiles, hends⟩ := record_ends s i w inputs
  obtain ⟨rfl, rfl, hworld⟩ := hends.eq_of_ok hok
  rw [List.append_nil] at hsplit
  subst hsplit
  rw [hworld]
  exact hfiles

/-- Inputs that are recorded make a recording that comes to its end. -/
theorem RecordsFiles.record_eq (h : RecordsFiles s i w inputs files v) :
    record s i w inputs = ⟨v, i.reports files, .ok files⟩ := by
  induction h with
  | nil => rfl
  | cons hresolve hput _ ih =>
    simp only [record, recordInput, hresolve, hput, ih]
    rfl

/-! ## 2. The rows that are set -/

/-- The rows of some files are those of an invocation, and all others are what they were. -/
structure SetsRows (i : Invocation) (files : List Text) (before after : Table) : Prop where
  sorted : after.IsSorted
  rows : ∀ file, after.get? file =
    if file ∈ files then some (Row.ofRecord (i.recordFor file)) else before.get? file

theorem setsRows_nil {t : Table} (ht : t.IsSorted) : SetsRows i [] t t :=
  ⟨ht, fun file => by simp⟩

/-- One record put in front of the others. -/
theorem SetsRows.cons {before after : Table}
    (h : SetsRows i files (before.put (Row.ofRecord (i.recordFor file))) after) :
    SetsRows i (file :: files) before after := by
  refine ⟨h.sorted, fun x => ?_⟩
  have hname : (Row.ofRecord (i.recordFor file)).file = file := rfl
  rw [h.rows, Table.get?_put, hname]
  by_cases hx : x ∈ files
  · rw [if_pos hx, if_pos (List.mem_cons_of_mem _ hx)]
  · rw [if_neg hx]
    by_cases heq : file = x
    · subst heq
      rw [if_pos rfl, if_pos List.mem_cons_self]
    · rw [if_neg heq, if_neg (by simp [hx, Ne.symm heq])]

theorem sorted_of_setsRows {before after : Option Table}
    (h : Option.Rel (SetsRows i files) before after) :
    ∀ rows, after = some rows → rows.IsSorted := by
  rintro rows rfl
  cases h with
  | some h => exact h.sorted

/-- Rows that are set in another order are the same rows. -/
theorem eq_of_setsRows {files' : List Text} {before after after' : Option Table}
    (h : Option.Rel (SetsRows i files) before after)
    (h' : Option.Rel (SetsRows i files') before after')
    (hfiles : ∀ file, file ∈ files' ↔ file ∈ files) : after' = after := by
  cases h with
  | none =>
    cases h'
    rfl
  | some h =>
    cases h' with
    | some h' =>
      refine congrArg some (h'.sorted.ext h.sorted fun file => ?_)
      simp only [h'.rows, h.rows, hfiles]

/-- Rows that are set once more are the same rows. -/
theorem eq_of_setsRows_again {before after after' : Option Table}
    (h : Option.Rel (SetsRows i files) before after)
    (h' : Option.Rel (SetsRows i files) after after') : after' = after := by
  cases h with
  | none =>
    cases h'
    rfl
  | some h =>
    cases h' with
    | some h' =>
      refine congrArg some (h'.sorted.ext h.sorted fun file => ?_)
      rw [h'.rows, h.rows]
      split
      · rfl
      · rfl

/-- **The records of a recording set the rows of their files.** -/
theorem RecordsFiles.setsRows (h : RecordsFiles s i w inputs files v) (ht : s.IsTrusted w c)
    (hsorted : ∀ rows, w.table? c.handle = some rows → rows.IsSorted) :
    ∃ c', s.Continues w c v c' ∧
      Option.Rel (SetsRows i files) (w.table? c.handle) (v.table? c.handle) := by
  induction h generalizing c with
  | @nil w =>
    refine ⟨c, ht.continues, ?_⟩
    cases hrows : w.table? c.handle with
    | none => exact .none
    | some rows => exact .some (setsRows_nil (hsorted rows hrows))
  | @cons w v w' input file inputs files _ hput _ ih =>
    obtain ⟨c', hcontinues, hrows⟩ := Store.put_trusted ht (i.recordFor file)
    rw [hput] at hcontinues hrows
    obtain ⟨rows, hbefore, hafter⟩ := hrows
    rw [← hcontinues.handle] at hafter
    obtain ⟨c'', hlater, hset⟩ := ih hcontinues.toIsTrusted fun rows' hrows' => by
      obtain rfl := Option.some.inj (hafter.symm.trans hrows')
      exact (hsorted rows hbefore).put _
    refine ⟨c'', hcontinues.trans hlater, ?_⟩
    rw [hafter, hcontinues.handle] at hset
    rw [hbefore]
    generalize w'.table? c.handle = after at hset ⊢
    cases hset with
    | some hset => exact .some hset.cons

/-- What comes after the inputs that are recorded leaves the rows. -/
theorem EndsWith.keepsRows {o : Outcome (List Text)} (h : EndsWith s i files v rest o)
    (ht : s.IsTrusted v c) :
    ∃ c', s.Continues v c o.world c' ∧ o.world.table? c.handle = v.table? c.handle := by
  cases h with
  | all | unresolved | removed => exact ⟨c, ht.continues, rfl⟩
  | @refused v' input file rest e _ hput =>
    obtain ⟨c', hcontinues, hrows⟩ := Store.put_trusted ht (i.recordFor file)
    rw [hput] at hcontinues hrows
    exact ⟨c', hcontinues, hrows⟩

/-! ## 3. Recording again -/

/-- Inputs lead to files, all of them seen from the working directory of an invocation. -/
def LeadTo (w : World) (i : Invocation) : List Text → List Text → Prop :=
  List.Forall₂ fun input file => w.resolve i.workdir input = .ok file

/-- Over an unchanged tree inputs lead to the same files. -/
theorem LeadTo.over (h : LeadTo w i inputs files) (hsame : w.SameTree v) :
    LeadTo v i inputs files :=
  List.Forall₂.imp (fun _ _ hresolve => (hsame.resolve_eq ..).trans hresolve) h

/-- A store that accepts every record moves nothing that the inputs lead along. -/
theorem RecordsFiles.sameTree (h : RecordsFiles s i w inputs files v) (ha : s.Accepts w c) :
    LeadTo w i inputs files ∧ w.SameTree v ∧ ∃ c', s.Accepts v c' := by
  induction h generalizing c with
  | nil => exact ⟨.nil, ⟨fun _ => rfl, rfl⟩, c, ha⟩
  | @cons w v w' input file inputs files hresolve hput _ ih =>
    obtain ⟨-, hsame⟩ := ha.every (i.recordFor file)
    obtain ⟨c', -, haccepts⟩ := ha.put (i.recordFor file)
    rw [hput] at hsame haccepts
    obtain ⟨hnames, hlater, haccepts⟩ := ih haccepts
    exact ⟨.cons hresolve (hnames.over hsame.symm), hsame.trans hlater, haccepts⟩

/-- **A store that accepts every record records all inputs that lead to files.** -/
theorem recordsFiles_of_accepts (ha : s.Accepts w c) (hnames : LeadTo w i inputs files) :
    ∃ v, RecordsFiles s i w inputs files v := by
  induction inputs generalizing w c files with
  | nil =>
    cases hnames
    exact ⟨w, .nil⟩
  | cons input rest ih =>
    cases hnames with
    | @cons _ file _ files hresolve hrest =>
      obtain ⟨hok, hsame⟩ := ha.every (i.recordFor file)
      obtain ⟨c', -, haccepts⟩ := ha.put (i.recordFor file)
      obtain ⟨v, hlater⟩ := ih haccepts (LeadTo.over hrest hsame)
      exact ⟨v, .cons hresolve (Prod.ext rfl hok) hlater⟩

/-- A store that can put a record records all inputs that lead to the same files now and after
that. -/
theorem recordsFiles_of_put (ht : s.IsTrusted w c) {r : Record} (hok : (s.put w r).2 = .ok ())
    (hnames : LeadTo (s.put w r).1 i inputs files)
    (hsame : ∀ x ∈ inputs, (s.put w r).1.resolve i.workdir x = w.resolve i.workdir x) :
    ∃ v, RecordsFiles s i w inputs files v := by
  cases hnames with
  | nil => exact ⟨w, .nil⟩
  | @cons input file rest files hresolve hrest =>
    have hok' : (s.put w (i.recordFor file)).2 = .ok () := (Store.put_result ..).trans hok
    obtain ⟨c', -, haccepts⟩ := Store.accepts_of_put ht hok'
    obtain ⟨v, hlater⟩ := recordsFiles_of_accepts haccepts
      (LeadTo.over hrest (Store.put_sameTree ht r (i.recordFor file)))
    exact ⟨v, .cons ((hsame input List.mem_cons_self).symm.trans hresolve) (Prod.ext rfl hok')
      hlater⟩

/-- **The first record settles how the others fare**: none of them is refused, and each input leads
at the end where it led when its turn came. -/
theorem RecordsFiles.settled (h : RecordsFiles s i w (input :: inputs) (file :: files) v)
    (ht : s.IsTrusted w c) : (s.put w (i.recordFor file)).1.SameTree v ∧
      LeadTo v i inputs files ∧ ∃ c', s.Accepts v c' := by
  cases h with
  | cons _ hput hrest =>
    obtain ⟨c', -, haccepts⟩ := Store.accepts_of_put ht (congrArg Prod.snd hput)
    rw [hput] at haccepts ⊢
    obtain ⟨hnames, hsame, haccepts⟩ := hrest.sameTree haccepts
    exact ⟨hsame, hnames.over hsame, haccepts⟩

/-- **Inputs that were recorded can be recorded again, and in any order**, if each of them leads
afterwards where it led before. -/
theorem RecordsFiles.again (h : RecordsFiles s i w inputs files v)
    (ht : ∀ c, s.connection? w = some c → s.IsTrusted w c)
    (hsame : ∀ x ∈ inputs, v.resolve i.workdir x = w.resolve i.workdir x) :
    (∃ v', RecordsFiles s i v inputs files v') ∧
      ∀ inputs', inputs'.Perm inputs →
        ∃ files' v', files'.Perm files ∧ RecordsFiles s i w inputs' files' v' := by
  cases h with
  | nil =>
    refine ⟨⟨w, .nil⟩, fun inputs' hperm => ?_⟩
    obtain rfl := hperm.eq_nil
    exact ⟨[], w, .refl _, .nil⟩
  | @cons _ _ _ input file inputs files hresolve hput hrest =>
  have hok : (s.put w (i.recordFor file)).2 = .ok () := congrArg Prod.snd hput
  obtain ⟨c, hc⟩ : ∃ c, s.connection? w = some c := by
    cases hc : s.connection? w with
    | none =>
      rw [Store.put, Store.use, hc] at hok
      exact absurd hok (by simp)
    | some c => exact ⟨c, rfl⟩
  obtain ⟨htree, hnames, c', haccepts⟩ :=
    (RecordsFiles.cons hresolve hput hrest).settled (ht c hc)
  have hall : LeadTo v i (input :: inputs) (file :: files) :=
    .cons ((hsame input List.mem_cons_self).trans hresolve) hnames
  refine ⟨recordsFiles_of_accepts haccepts hall, fun inputs' hperm => ?_⟩
  obtain ⟨files', hnames', hfiles'⟩ := List.perm_comp_forall₂ hperm hall
  obtain ⟨v', hrecords⟩ := recordsFiles_of_put (ht c hc) hok (LeadTo.over hnames' htree.symm)
    fun x hx => by rw [← hsame x (hperm.subset hx), htree.resolve_eq]
  exact ⟨files', v', hfiles', hrecords⟩

/-! ## 4. The theorem -/

/-- A recording that can be made again and in any order, and leaves the same rows each time. -/
structure IsRepeatable (w : World) (s : Store) (i : Invocation) (inputs files : List Text) :
    Prop where
  again : (record s i (record s i w inputs).world inputs).result = .ok files
  rows : ∀ c, s.connection? w = some c →
    (record s i (record s i w inputs).world inputs).world.table? c.handle =
      (record s i w inputs).world.table? c.handle
  permuted : ∀ inputs', inputs'.Perm inputs → ∃ files', files'.Perm files ∧
    (record s i w inputs').result = .ok files' ∧ ∀ c, s.connection? w = some c →
      (record s i w inputs').world.table? c.handle = (record s i w inputs).world.table? c.handle

/-- Inputs that were recorded make a recording that can be made again. -/
theorem RecordsFiles.isRepeatable (h : RecordsFiles s i w inputs files v)
    (ht : ∀ c, s.connection? w = some c → s.IsTrusted w c)
    (hsorted : ∀ c rows, s.connection? w = some c → w.table? c.handle = some rows →
      rows.IsSorted)
    (hsame : ∀ x ∈ inputs, v.resolve i.workdir x = w.resolve i.workdir x) :
    IsRepeatable w s i inputs files := by
  obtain ⟨⟨v', hagain⟩, hpermuted⟩ := h.again ht hsame
  have hworld : (record s i w inputs).world = v := by rw [h.record_eq]
  refine ⟨?_, fun c hc => ?_, fun inputs' hperm => ?_⟩
  · rw [hworld, hagain.record_eq]
  · obtain ⟨c', hcontinues, hrows⟩ := h.setsRows (ht c hc) fun rows => hsorted c rows hc
    rw [hworld, hagain.record_eq]
    rw [← hcontinues.handle] at hrows ⊢
    obtain ⟨-, -, hrows'⟩ := hagain.setsRows hcontinues.toIsTrusted
      (sorted_of_setsRows hrows)
    exact eq_of_setsRows_again hrows hrows'
  · obtain ⟨files', v'', hfiles, hrecords⟩ := hpermuted inputs' hperm
    refine ⟨files', hfiles, by rw [hrecords.record_eq], fun c hc => ?_⟩
    obtain ⟨-, -, hrows⟩ := h.setsRows (ht c hc) fun rows => hsorted c rows hc
    obtain ⟨-, -, hrows'⟩ := hrecords.setsRows (ht c hc) fun rows => hsorted c rows hc
    rw [hworld, hrecords.record_eq]
    exact eq_of_setsRows hrows hrows' fun file => hfiles.mem_iff

/-- **A recording records its inputs up to the first that cannot be recorded, and no further.**  It
sets the rows of their files and no others, and gives the files, or the failure of the input at
which it stops.  A recording that has come to its end can be made again, and in any order, if its
inputs still lead where they led. -/
theorem record_exact (ht : ∀ c, s.connection? w = some c → s.IsTrusted w c)
    (hsorted : ∀ c rows, s.connection? w = some c → w.table? c.handle = some rows →
      rows.IsSorted) (i : Invocation) (inputs : List Text) :
    (∃ done rest files v, inputs = done ++ rest ∧ RecordsFiles s i w done files v ∧
      EndsWith s i files v rest (record s i w inputs) ∧ ∀ c, s.connection? w = some c →
        w.disk.ChangesOnly c.handle.IsNear (· = c.handle.file) (record s i w inputs).world.disk ∧
          Option.Rel (SetsRows i files) (w.table? c.handle)
            ((record s i w inputs).world.table? c.handle)) ∧
    ∀ files, (record s i w inputs).result = .ok files →
      (∀ x ∈ inputs, (record s i w inputs).world.resolve i.workdir x = w.resolve i.workdir x) →
      IsRepeatable w s i inputs files := by
  refine ⟨?_, fun files hok hsame => (recordsFiles_of_ok hok).isRepeatable ht hsorted hsame⟩
  obtain ⟨done, rest, files, v, hsplit, hfiles, hends⟩ := record_ends s i w inputs
  refine ⟨done, rest, files, v, hsplit, hfiles, hends, fun c hc => ?_⟩
  obtain ⟨c', hcontinues, hrows⟩ := hfiles.setsRows (ht c hc) fun rows => hsorted c rows hc
  obtain ⟨_, hlater, hkept⟩ := hends.keepsRows hcontinues.toIsTrusted
  refine ⟨(hcontinues.trans hlater).disk, ?_⟩
  rw [← hcontinues.handle] at hrows ⊢
  rw [hkept]
  exact hrows

/-- A call that stops at its second input, and one that names the first source twice. -/
theorem record_exact_sharedWorld :
    (∃ done rest files v, (["a.c", "no.c", "b.c"] : List Text) = done ++ rest ∧
      RecordsFiles (Crew.sharedCall 0 "cc" []).store (Crew.sharedCall 0 "cc" []).invocation
        Crew.sharedWorld done files v ∧
      EndsWith (Crew.sharedCall 0 "cc" []).store (Crew.sharedCall 0 "cc" []).invocation files v rest
        (record (Crew.sharedCall 0 "cc" []).store (Crew.sharedCall 0 "cc" []).invocation
          Crew.sharedWorld ["a.c", "no.c", "b.c"])) ∧
    (record (Crew.sharedCall 0 "cc" []).store (Crew.sharedCall 0 "cc" []).invocation
      Crew.sharedWorld ["a.c", "no.c", "b.c"]).result = .error (.unresolved "no.c") ∧
    (record (Crew.sharedCall 0 "cc" []).store (Crew.sharedCall 0 "cc" []).invocation
      Crew.sharedWorld ["a.c", "no.c", "b.c"]).world.table? ⟨2, some ["x.db"]⟩ =
        some [⟨"/a.c", "cc", "", "/"⟩] ∧
    IsRepeatable Crew.sharedWorld (Crew.sharedCall 0 "cc" []).store
      (Crew.sharedCall 0 "cc" []).invocation ["b.c", "l.c", "a.c"] ["/b.c", "/a.c", "/a.c"] := by
  have hopen : (Crew.sharedCall 0 "cc" []).store.IsOpenOn Crew.sharedWorld ⟨2, some ["x.db"]⟩ := by
    decide
  obtain ⟨c, hhandle, htrusted⟩ := hopen.isTrusted Crew.sharedWorld_isInStep rfl
  have ht : ∀ c', (Crew.sharedCall 0 "cc" []).store.connection? Crew.sharedWorld = some c' →
      c' = c := fun c' hc' => Option.some.inj (hc'.symm.trans htrusted.connection)
  have hsorted : ∀ c' rows, (Crew.sharedCall 0 "cc" []).store.connection? Crew.sharedWorld =
      some c' → Crew.sharedWorld.table? c'.handle = some rows → rows.IsSorted := by
    intro c' rows hc' hrows
    rw [ht c' hc', hhandle] at hrows
    exact Crew.sharedWorld_isSorted hrows
  obtain ⟨⟨done, rest, files, v, hsplit, hfiles, hends, -⟩, -⟩ :=
    record_exact (fun c' hc' => ht c' hc' ▸ htrusted) hsorted
      (Crew.sharedCall 0 "cc" []).invocation ["a.c", "no.c", "b.c"]
  refine ⟨⟨done, rest, files, v, hsplit, hfiles, hends⟩, by decide, by decide, ?_⟩
  exact (record_exact (fun c' hc' => ht c' hc' ▸ htrusted) hsorted _ _).2 _ (by decide) (by decide)

/-- The world with two stores, whose current directory has been removed. -/
def strayWorld : World := { Crew.sharedWorld with cwd := ⟨[], 1⟩ }

/-- A recording through a store that does not know that the file has changed loses a row; and one
from a directory that is gone fails for a reason of neither kind. -/
theorem not_record_exact :
    (¬∀ (w : World) (s : Store) (h : Handle) (i : Invocation) (inputs : List Text), w.IsSound →
      w.Hosts h → s.IsOpenOn w h → (∀ rows, w.table? h = some rows → rows.IsSorted) →
      ∃ files, Option.Rel (SetsRows i files) (w.table? h) ((record s i w inputs).world.table? h)) ∧
    ¬∀ (w : World) (s : Store) (h : Handle) (i : Invocation) (inputs : List Text) (e : Failure),
      w.IsInStep h → s.IsOpenOn w h → (record s i w inputs).result = .error e →
      (∃ input ∈ inputs, e = .unresolved input) ∨ ∃ v r, (s.put v r).2 = .error e := by
  constructor
  · intro hall
    obtain ⟨hsound, hhosts, htable⟩ := Crew.staleWorld_holds
    obtain ⟨files, hset⟩ := hall Crew.staleWorld (Crew.sharedCall 0 "cc" []).store
      ⟨2, some ["x.db"]⟩ (Crew.sharedCall 0 "cc" []).invocation ["b.c"] hsound hhosts
      (by decide +kernel) fun _ => Crew.staleWorld_isSorted
    have hafter : (record (Crew.sharedCall 0 "cc" []).store (Crew.sharedCall 0 "cc" []).invocation
        Crew.staleWorld ["b.c"]).world.table? ⟨2, some ["x.db"]⟩ =
          some [⟨"/b.c", "cc", "", "/"⟩] := by
      decide +kernel
    rw [htable, hafter] at hset
    cases hset with
    | some hset =>
      have hrow := hset.rows "/a.c"
      have hnone : Table.get? [⟨"/b.c", "cc", "", "/"⟩] "/a.c" = none := by decide
      rw [hnone] at hrow
      split at hrow
      · exact absurd hrow (by simp)
      · exact absurd hrow (by decide)
  · intro hall
    have hshared := Crew.sharedWorld_isInStep
    have hinStep : strayWorld.IsInStep ⟨2, some ["x.db"]⟩ :=
      ⟨⟨hshared.sound.tree, rfl⟩, ⟨hshared.hosts.number, hshared.hosts.place⟩, hshared.memory⟩
    rcases hall strayWorld (Crew.sharedCall 0 "cc" []).store ⟨2, some ["x.db"]⟩ ⟨"cc", [], ""⟩ ["."]
      (.system .notFound none) hinStep (by decide +kernel) (by decide +kernel) with
      ⟨input, -, heq⟩ | ⟨v, r, hput⟩
    · exact absurd heq (by simp)
    · obtain ⟨fault, hfault⟩ := Store.use_error hput
      cases fault <;> exact absurd hfault (by simp [Store.failure])

end CompileJournal
