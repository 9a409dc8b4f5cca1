import CompileJournal.Commands.Record
import CompileJournal.Proofs.Journal.InStep
import CompileJournal.Proofs.World.Lookup
import CompileJournal.Proofs.World.Small

/-!
# Recording at the same time

The compilers of a parallel build record their invocations at the same time, each through a store
of its own, and all into one database.  There is no transaction around the records of one
invocation: each record is put on its own, and between two of them anybody else may have put one,
or begun a transaction that keeps everybody from putting more.

Nothing is lost, doubled or mixed up in that.  A step of one call puts one row, or it leaves the
rows alone; so the rows at the end are those from the beginning with all records put into them, in
the order in which they were put.

* `Recorder.step`, `Crew.move`: what happens at one time;
* `run_replicate`: a call that nobody comes in between is `record`;
* `Crew.Continues`, `move_continues`, `run_continues`: the invariant;
* `record_interleaved`: the rows at the end.
-/

namespace CompileJournal

/-! ## 1. Calls that record at the same time -/

/-- A call that records an invocation for its source files. -/
structure Call where
  store : Store
  invocation : Invocation
  inputs : List Text
  deriving DecidableEq, Repr

/-- What an input of a call leads to. -/
def Call.resolve (w : World) (call : Call) (input : Text) : Except Failure Text :=
  w.resolve call.invocation.workdir input

/-- The files that the inputs of a call lead to. -/
def Call.targets (w : World) (call : Call) : List Text :=
  call.inputs.filterMap fun x => (call.resolve w x).toOption

/-- A call on its way: the files that it has recorded, and the failure that has ended it. -/
structure Recorder extends Call where
  files : List Text := []
  failure : Option Failure := none
  deriving DecidableEq, Repr

namespace Recorder

/-- The input that is recorded next, unless the call has failed. -/
def next? (r : Recorder) : Option Text :=
  if r.failure = none then r.inputs[r.files.length]? else none

/-- The world and the call after its next input, and the record that was put. -/
def step (w : World) (r : Recorder) : World × Recorder × Option Record :=
  match r.next? with
  | none => (w, r, none)
  | some input =>
    match recordInput w r.store r.invocation input with
    | ⟨w, _, .error e⟩ => (w, { r with failure := some e }, none)
    | ⟨w, _, .ok file⟩ =>
      (w, { r with files := r.files ++ [file] }, some (r.invocation.recordFor file))

/-- What a call gives when it has ended. -/
def result (r : Recorder) : Except Failure (List Text) :=
  match r.failure with
  | none => .ok r.files
  | some e => .error e

/-- The call has ended, and if it has failed then because an input leads nowhere. -/
def EndsWell (w : World) (r : Recorder) : Prop :=
  r.next? = none ∧
    ∀ e ∈ r.failure, (r.inputs[r.files.length]?).map (r.resolve w) = some (.error e)

instance (w : World) (r : Recorder) : Decidable (r.EndsWell w) :=
  inferInstanceAs (Decidable (_ ∧ _))

end Recorder

/-- A record that was put, and the number of the call that has put it. -/
structure Written where
  number : Nat
  record : Record
  deriving DecidableEq, Repr

/-- Several calls at one time, and what they have put so far. -/
structure Crew where
  world : World
  recorders : List Recorder
  written : List Written := []
  deriving DecidableEq, Repr

/-- What may happen next: a call records its next input, or another program begins or ends a
transaction. -/
inductive Move where
  | record (number : Nat)
  | lock (path : Text) (mode : LockMode)
  | unlock (path : Text)
  deriving DecidableEq, Repr

namespace Crew

/-- The calls before any of them has recorded anything. -/
def begin (w : World) (calls : List Call) : Crew :=
  { world := w, recorders := calls.map fun call => { toCall := call } }

def move (c : Crew) : Move → Crew
  | .record k =>
    match c.recorders[k]? with
    | none => c
    | some r =>
      let (w, r, record?) := r.step c.world
      ⟨w, c.recorders.set k r, c.written ++ record?.toList.map (⟨k, ·⟩)⟩
  | .lock path mode => { c with world := (c.world.lock path mode).1 }
  | .unlock path => { c with world := c.world.unlock path }

def run (c : Crew) (moves : List Move) : Crew := moves.foldl move c

/-- Every input of every call leads where it led in the world `w`. -/
def IsStill (w : World) (c : Crew) : Prop :=
  ∀ r ∈ c.recorders, ∀ x ∈ r.inputs, r.resolve c.world x = r.resolve w x

/-- A transaction that begins or ends is one on the database of the handle. -/
def IsAt (h : Handle) (c : Crew) : Move → Prop
  | .record _ => True
  | .lock path _ => c.world.IsPathTo path h
  | .unlock path => ∀ l ∈ c.world.locks, l.holder = some path → l.handle = h

/-- Something holds of every move that is made, and of the calls before it. -/
def Along (P : Crew → Move → Prop) : Crew → List Move → Prop
  | _, [] => True
  | c, m :: rest => P c m ∧ Along P (c.move m) rest

/-- The tree is as it was in the world `w`, and a transaction that begins or ends is one on the
database of the handle. -/
def Allows (w : World) (h : Handle) (c : Crew) (m : Move) : Prop := c.IsStill w ∧ c.IsAt h m

instance (w : World) (c : Crew) : Decidable (c.IsStill w) :=
  inferInstanceAs (Decidable (∀ _ ∈ _, _))

instance (h : Handle) (c : Crew) : (m : Move) → Decidable (c.IsAt h m)
  | .record _ => .isTrue trivial
  | .lock path _ => inferInstanceAs (Decidable (c.world.IsPathTo path h))
  | .unlock _ => inferInstanceAs (Decidable (∀ _ ∈ _, _ → _))

instance (w : World) (h : Handle) (c : Crew) (m : Move) : Decidable (c.Allows w h m) :=
  inferInstanceAs (Decidable (_ ∧ _))

instance decidableAlong (P : Crew → Move → Prop) [∀ c m, Decidable (P c m)] :
    (c : Crew) → (moves : List Move) → Decidable (c.Along P moves)
  | _, [] => .isTrue trivial
  | c, m :: rest =>
    have := decidableAlong P (c.move m) rest
    inferInstanceAs (Decidable (_ ∧ _))

end Crew

namespace Crew

theorem run_cons (c : Crew) (m : Move) (moves : List Move) :
    c.run (m :: moves) = (c.move m).run moves := rfl

/-- The call with a number, and the world, after its next input. -/
theorem move_record {c : Crew} {k : Nat} {r : Recorder} (hr : c.recorders[k]? = some r) :
    (c.move (.record k)).world = (r.step c.world).1 ∧
      (c.move (.record k)).recorders[k]? = some (r.step c.world).2.1 := by
  have hk : k < c.recorders.length := (List.getElem?_eq_some_iff.mp hr).1
  simp only [move, hr, true_and]
  exact List.getElem?_set_self hk

/-- A call that has failed stays as it is. -/
theorem run_of_failure {c : Crew} {k : Nat} {r : Recorder} (hr : c.recorders[k]? = some r)
    {e : Failure} (he : r.failure = some e) (n : Nat) :
    (c.run (.replicate n (.record k))).world = c.world ∧
      (c.run (.replicate n (.record k))).recorders[k]? = some r := by
  have hstep : ∀ w, r.step w = (w, r, none) := fun w => by
    rw [Recorder.step, Recorder.next?, if_neg (by simp [he])]
  induction n generalizing c with
  | zero => exact ⟨rfl, hr⟩
  | succ n ih =>
    obtain ⟨hworld, hnext⟩ := move_record hr
    rw [hstep] at hworld hnext
    rw [List.replicate_succ, run_cons]
    exact ⟨(ih hnext).1.trans hworld, (ih hnext).2⟩

/-- **A call that nobody comes in between is `record`**: it leaves the same world and gives the
same files, or the same failure. -/
theorem run_replicate {c : Crew} {k : Nat} {r : Recorder} (hr : c.recorders[k]? = some r)
    (hgoing : r.failure = none) {rest : List Text} (hrest : r.inputs.drop r.files.length = rest) :
    ∃ r', (c.run (.replicate rest.length (.record k))).recorders[k]? = some r' ∧
      (c.run (.replicate rest.length (.record k))).world =
        (record r.store r.invocation c.world rest).world ∧
      r'.result = (record r.store r.invocation c.world rest).result.map (r.files ++ ·) := by
  induction rest generalizing c r with
  | nil => exact ⟨r, hr, rfl, by simp [Recorder.result, hgoing, record, Except.map]⟩
  | cons input rest ih =>
    have hnext : r.next? = some input := by
      rw [Recorder.next?, if_pos hgoing, ← List.head?_drop, hrest, List.head?_cons]
    have hlater : r.inputs.drop (r.files.length + 1) = rest := by
      rw [← List.tail_drop, hrest, List.tail_cons]
    obtain ⟨hworld, hstepped⟩ := move_record hr
    rw [List.length_cons, List.replicate_succ, run_cons]
    simp only [Recorder.step, hnext] at hworld hstepped
    cases hinput : recordInput c.world r.store r.invocation input with
    | mk w events result =>
    rw [hinput] at hworld hstepped
    cases result with
    | error e =>
      obtain ⟨hsame, hstays⟩ := run_of_failure hstepped rfl rest.length
      refine ⟨_, hstays, (hsame.trans hworld).trans ?_, ?_⟩
      · simp only [record, hinput]
      · simp only [record, hinput]
        rfl
    | ok file =>
      obtain ⟨r', hr', hsame, hresult⟩ := ih hstepped hgoing
        (by rw [List.length_append, List.length_singleton]; exact hlater)
      refine ⟨r', hr', ?_, ?_⟩
      · rw [hsame, hworld]
        simp only [record, hinput]
      · rw [hresult, hworld]
        simp only [record, hinput]
        cases (record r.store r.invocation w rest).result with
        | error e => rfl
        | ok files => simp [Except.map]

end Crew

/-! ## 2. Records put one after the other -/

/-- The rows of a file in a database. -/
def World.rowsFor (w : World) (h : Handle) (file : Text) : List Row :=
  ((w.table? h).getD []).filter (·.file = file)

namespace Table

variable {xs : List Written} {file : Text} {t : Table}

/-- The table with all records put into it, one after the other. -/
def putEach (xs : List Written) (t : Table) : Table :=
  xs.foldl (fun t x => t.put (Row.ofRecord x.record)) t

theorem putEach_append (xs ys : List Written) (t : Table) :
    putEach (xs ++ ys) t = putEach ys (putEach xs t) := List.foldl_append

theorem IsSorted.putEach (h : IsSorted t) (xs : List Written) : IsSorted (putEach xs t) := by
  induction xs generalizing t with
  | nil => exact h
  | cons x rest ih => exact ih (h.put _)

/-- The files of which no record was put keep their rows. -/
theorem get?_putEach_of_ne (h : ∀ x ∈ xs, x.record.file ≠ file) (t : Table) :
    (putEach xs t).get? file = t.get? file := by
  induction xs generalizing t with
  | nil => rfl
  | cons x rest ih =>
    have hfile : (Row.ofRecord x.record).file ≠ file := h x List.mem_cons_self
    refine (ih (fun y hy => h y (List.mem_cons_of_mem _ hy)) _).trans ?_
    rw [get?_put, if_neg hfile]

/-- A file has the row of its last record. -/
theorem get?_putEach_of_last (before : List Written) {after : List Written} {x : Written}
    (h : ∀ y ∈ after, y.record.file ≠ x.record.file) (t : Table) :
    (putEach (before ++ x :: after) t).get? x.record.file = some (Row.ofRecord x.record) := by
  rw [putEach_append]
  refine (get?_putEach_of_ne h _).trans ?_
  rw [get?_put]
  exact if_pos rfl

/-- No record of a file was put, or one of them was the last. -/
theorem last_cases (xs : List Written) (file : Text) : (∀ x ∈ xs, x.record.file ≠ file) ∨
    ∃ before x after, xs = before ++ x :: after ∧ x.record.file = file ∧
      ∀ y ∈ after, y.record.file ≠ file := by
  induction xs with
  | nil => exact .inl (by simp)
  | cons x rest ih =>
    rcases ih with hnone | ⟨before, y, after, rfl, hy, hafter⟩
    · by_cases hx : x.record.file = file
      · exact .inr ⟨[], x, rest, rfl, hx, hnone⟩
      · refine .inl fun y hy => ?_
        rcases List.mem_cons.mp hy with rfl | hy
        · exact hx
        · exact hnone y hy
    · exact .inr ⟨x :: before, y, after, rfl, hy, hafter⟩

end Table

/-! ## 3. One step -/

/-- What one step of the call with the number `k` leaves: it has put a record of the file that its
next input leads to, or it has put none. -/
structure Recorder.Steps (w : World) (h : Handle) (r : Recorder) (k : Nat) (w' : World)
    (r' : Recorder) (record? : Option Record) : Prop where
  world : w.GoesOn h w'
  call : r'.toCall = r.toCall
  rows : w'.table? h = (w.table? h).map (Table.putEach (record?.toList.map (⟨k, ·⟩)))
  table : record? = none ∨ (w.table? h).isSome
  records : r'.files.map r.invocation.recordFor =
    r.files.map r.invocation.recordFor ++ record?.toList
  files : r'.files = r.files ∨ ∃ input file, r.inputs[r.files.length]? = some input ∧
    r.resolve w input = .ok file ∧ r'.files = r.files ++ [file]

/-- A step that put nothing. -/
theorem Recorder.steps_none {w w' : World} {h : Handle} {r : Recorder} (k : Nat)
    (hworld : w.GoesOn h w') (hrows : w'.table? h = w.table? h) (failure : Option Failure) :
    Steps w h r k w' { r with failure := failure } none where
  world := hworld
  call := rfl
  rows := by
    have hsame : Table.putEach ((none : Option Record).toList.map (⟨k, ·⟩)) = id := rfl
    rw [hsame, Option.map_id]
    exact hrows
  table := .inl rfl
  records := (List.append_nil _).symm
  files := .inl rfl

theorem Recorder.steps_of_step {w : World} {h : Handle} {r : Recorder} (hw : w.IsInStep h)
    (hopen : r.store.IsOpenOn w h) (k : Nat) :
    Steps w h r k (r.step w).1 (r.step w).2.1 (r.step w).2.2 := by
  unfold step
  cases hnext : r.next? with
  | none => exact steps_none k hw.goesOn rfl r.failure
  | some input =>
  have hinput : r.inputs[r.files.length]? = some input := by
    unfold next? at hnext
    split at hnext
    · exact hnext
    · exact absurd hnext (by simp)
  simp only [recordInput]
  cases hresolve : w.resolve r.invocation.workdir input with
  | error e => exact steps_none k hw.goesOn rfl (some e)
  | ok file =>
  obtain ⟨hworld, hresult⟩ := Store.put_goesOn hw hopen (r.invocation.recordFor file)
  simp only
  cases hput : r.store.put w (r.invocation.recordFor file) with
  | mk w' result =>
  rw [hput] at hworld hresult
  cases result with
  | error e => exact steps_none k hworld hresult (some e)
  | ok u =>
    obtain ⟨rows, hbefore, hafter⟩ := hresult
    refine ⟨hworld, rfl, ?_, .inr ?_, List.map_append,
      .inr ⟨input, file, hinput, hresolve, rfl⟩⟩
    · rw [hbefore]
      exact hafter
    · rw [hbefore]
      rfl

/-! ## 4. Any number of steps -/

namespace Crew

/-- The calls after some moves.  The rows are those from the beginning with all records put into
them in their order, and what a call has put are the records of the files that its first inputs
lead to. -/
structure Continues (w : World) (h : Handle) (calls : List Call) (c : Crew) : Prop where
  world : w.GoesOn h c.world
  started : c.recorders.map Recorder.toCall = calls
  isOpen : ∀ call ∈ calls, call.store.IsOpenOn w h
  rows : c.world.table? h = (w.table? h).map (Table.putEach c.written)
  table : c.written = [] ∨ (w.table? h).isSome
  number : ∀ x ∈ c.written, x.number < c.recorders.length
  records : ∀ {k r}, c.recorders[k]? = some r →
    (c.written.filter (·.number = k)).map Written.record = r.files.map r.invocation.recordFor
  files : ∀ r ∈ c.recorders, r.files.map .ok <+: r.inputs.map (r.resolve w)

variable {w : World} {h : Handle} {calls : List Call} {c : Crew}

theorem begin_continues (hw : w.IsInStep h) (hopen : ∀ call ∈ calls, call.store.IsOpenOn w h) :
    Continues w h calls (begin w calls) where
  world := hw.goesOn
  started := by simp [begin, Function.comp_def]
  isOpen := hopen
  rows := by
    have hsame : Table.putEach (begin w calls).written = id := rfl
    rw [hsame, Option.map_id]
    rfl
  table := .inl rfl
  number x hx := absurd hx List.not_mem_nil
  records {k r} hr := by
    obtain ⟨call, -, rfl⟩ := List.mem_map.mp (List.mem_of_getElem? hr)
    rfl
  files r hr := by
    obtain ⟨call, -, rfl⟩ := List.mem_map.mp hr
    exact List.nil_prefix

/-- The call with a number, before and after its step. -/
theorem set_getElem? {rs : List Recorder} {k : Nat} (hk : k < rs.length) (r' : Recorder) {j : Nat}
    {r : Recorder} (hr : (rs.set k r')[j]? = some r) :
    j = k ∧ r = r' ∨ j ≠ k ∧ rs[j]? = some r := by
  by_cases hj : j = k
  · subst hj
    rw [List.getElem?_set_self hk, Option.some.injEq] at hr
    exact .inl ⟨rfl, hr.symm⟩
  · rw [List.getElem?_set_ne (Ne.symm hj)] at hr
    exact .inr ⟨hj, hr⟩

/-- A list that is followed goes on with the next one. -/
theorem concat_isPrefix {α : Type} {l l' : List α} {a : α} (h : l <+: l')
    (ha : l'[l.length]? = some a) : l ++ [a] <+: l' := by
  obtain ⟨rest, rfl⟩ := h
  rw [List.getElem?_append_right (Nat.le_refl _), Nat.sub_self] at ha
  cases rest with
  | nil => exact absurd ha (by simp)
  | cons b rest =>
    obtain rfl : b = a := Option.some.inj ha
    exact ⟨rest, by simp⟩

/-- **A step of one call.** -/
theorem record_continues (hc : Continues w h calls c) (hstill : c.IsStill w) (k : Nat) :
    Continues w h calls (c.move (.record k)) := by
  unfold move
  simp only
  cases hr : c.recorders[k]? with
  | none => exact hc
  | some r =>
  have hmem : r ∈ c.recorders := List.mem_of_getElem? hr
  have hk : k < c.recorders.length := (List.getElem?_eq_some_iff.mp hr).1
  have hopen : r.store.IsOpenOn c.world h :=
    (hc.world.isOpen _).mpr (hc.isOpen _ (hc.started ▸ List.mem_map_of_mem hmem))
  have hsteps := Recorder.steps_of_step hc.world.inStep hopen k
  simp only
  generalize r.step c.world = stepped at hsteps ⊢
  obtain ⟨w', r', record?⟩ := stepped
  have hinvocation : r'.invocation = r.invocation := congrArg Call.invocation hsteps.call
  have hinputs : r'.inputs = r.inputs := congrArg Call.inputs hsteps.call
  have hfiles : r'.files.map .ok <+: r'.inputs.map (r'.resolve w) := by
    have hbefore := hc.files r hmem
    have hresolve : r'.resolve w = r.resolve w := congrArg (Call.resolve w) hsteps.call
    rw [hinputs, hresolve]
    rcases hsteps.files with hsame | ⟨input, file, hinput, hfile, hmore⟩
    · rwa [hsame]
    · rw [hmore, List.map_append]
      refine concat_isPrefix hbefore ?_
      rw [List.length_map, List.getElem?_map, hinput, Option.map_some,
        ← hstill r hmem input (List.mem_of_getElem? hinput), hfile]
  refine ⟨hc.world.trans hsteps.world, ?_, hc.isOpen, ?_, ?_, fun x hx => ?_,
    fun {j q} hq => ?_, fun q hq => ?_⟩
  · have hr' : r = c.recorders[k] := (List.getElem?_eq_some_iff.mp hr).2.symm
    rw [← hc.started, List.map_set, hsteps.call, hr', ← List.map_set, List.set_getElem_self]
  · rw [hsteps.rows, hc.rows, Option.map_map]
    exact congrArg (Option.map · _) (funext fun t => (Table.putEach_append _ _ t).symm)
  · rcases hsteps.table with rfl | htable
    · rw [Option.toList_none, List.map_nil, List.append_nil]
      exact hc.table
    · rw [hc.rows, Option.isSome_map] at htable
      exact .inr htable
  · rw [List.length_set]
    rcases List.mem_append.mp hx with hx | hx
    · exact hc.number x hx
    · obtain ⟨y, -, rfl⟩ := List.mem_map.mp hx
      exact hk
  · rw [List.filter_append, List.map_append]
    rcases set_getElem? hk r' hq with ⟨rfl, rfl⟩ | ⟨hne, hq⟩
    · rw [hc.records hr, hinvocation, hsteps.records]
      cases record? with
      | none => rfl
      | some x => simp
    · have hnone : (record?.toList.map (Written.mk k)).filter (·.number = j) = [] := by
        simp [Ne.symm hne]
      rw [hnone, List.map_nil, List.append_nil, hc.records hq]
  · rcases List.mem_or_eq_of_mem_set hq with hq | rfl
    · exact hc.files q hq
    · exact hfiles

/-- What leaves the rows alone is none of the calls' business. -/
theorem Continues.of_goesOn (hc : Continues w h calls c) {w' : World}
    (hw' : c.world.GoesOn h w' ∧ w'.table? h = c.world.table? h) :
    Continues w h calls { c with world := w' } where
  world := hc.world.trans hw'.1
  started := hc.started
  isOpen := hc.isOpen
  rows := hw'.2.trans hc.rows
  table := hc.table
  number := hc.number
  records := hc.records
  files := hc.files

/-- **Whatever happens next**, the calls go on in this way. -/
theorem move_continues (hc : Continues w h calls c) {m : Move} (hm : c.Allows w h m) :
    Continues w h calls (c.move m) := by
  obtain ⟨hstill, hat⟩ := hm
  cases m with
  | record k => exact record_continues hc hstill k
  | lock path mode => exact hc.of_goesOn (World.lock_goesOn hc.world.inStep hat mode)
  | unlock path => exact hc.of_goesOn (World.unlock_goesOn hc.world.inStep hat)

/-- **Whatever happens at all.** -/
theorem run_continues (hc : Continues w h calls c) {moves : List Move}
    (hmoves : c.Along (Allows w h) moves) : Continues w h calls (c.run moves) := by
  induction moves generalizing c with
  | nil => exact hc
  | cons m rest ih => exact ih (move_continues hc hmoves.1) hmoves.2

/-- Every input of every call leads to something that does not lie beside the database, and no link
lies there. -/
structure FindsApart (w : World) (h : Handle) (calls : List Call) : Prop where
  input : ∀ call ∈ calls, ∀ x ∈ call.inputs, ∃ q,
    w.find (Path.join call.invocation.workdir x) = .ok ⟨q, 0⟩ ∧ ¬h.IsBeside q
  link : ∀ {q t}, h.IsBeside q → w.disk.entryAt q ≠ some (.link t)

/-- **What is put into a database does not change the tree** for the inputs that are found apart
from it. -/
theorem Continues.isStill (hc : Continues w h calls c) (hfinds : FindsApart w h calls) :
    c.IsStill w := by
  intro r hr x hx
  obtain ⟨q, hq, hapart⟩ := hfinds.input r.toCall (hc.started ▸ List.mem_map_of_mem hr) x hx
  have hdisk := hc.world.disk
  have hlinks : w.disk.SameLinks c.world.disk := by
    refine fun y t => ⟨hdisk.link, fun hy => ?_⟩
    rw [hdisk.elsewhere fun hbeside => hfinds.link hbeside hy, hy]
  have hfind := World.find_kept hc.world.cwd hq fun y e hy hkind => by
    rcases hkind with rfl | ⟨t, rfl⟩ | rfl
    · exact hdisk.directory hy
    · exact (hlinks y t).mpr hy
    · rw [hdisk.elsewhere hapart, hy]
  rw [Call.resolve, Call.resolve, World.resolve, World.resolve, World.exists?, World.exists?, hq,
    hfind, World.realPath_eq hc.world.cwd hlinks]

/-- So it is enough that the transactions are on the database. -/
theorem along_of_findsApart (hc : Continues w h calls c) (hfinds : FindsApart w h calls)
    {moves : List Move} (hmoves : c.Along (IsAt h) moves) : c.Along (Allows w h) moves := by
  induction moves generalizing c with
  | nil => exact trivial
  | cons m rest ih =>
    have hm : c.Allows w h m := ⟨hc.isStill hfinds, hmoves.1⟩
    exact ⟨hm, ih (move_continues hc hm) hmoves.2⟩

/-! ## 5. What was recorded in the end -/

namespace Continues

/-- A record was put by the call with its number, for a file that this call has recorded. -/
theorem recorder (hc : Continues w h calls c) {x : Written} (hx : x ∈ c.written) :
    ∃ r, c.recorders[x.number]? = some r ∧ x.record.file ∈ r.files ∧
      x.record = r.invocation.recordFor x.record.file := by
  have hr := List.getElem?_eq_getElem (hc.number x hx)
  have hmem : x.record ∈ (c.written.filter (·.number = x.number)).map Written.record :=
    List.mem_map_of_mem (List.mem_filter.mpr ⟨hx, by simp⟩)
  rw [hc.records hr] at hmem
  obtain ⟨file, hfile, heq⟩ := List.mem_map.mp hmem
  refine ⟨_, hr, ?_⟩
  rw [← heq]
  exact ⟨hfile, rfl⟩

/-- A file that a call has recorded is in one of its records. -/
theorem exists_written (hc : Continues w h calls c) {k : Nat} {r : Recorder}
    (hr : c.recorders[k]? = some r) {file : Text} (hfile : file ∈ r.files) :
    ∃ x ∈ c.written, x.number = k ∧ x.record.file = file := by
  have hmem : r.invocation.recordFor file ∈ r.files.map r.invocation.recordFor :=
    List.mem_map_of_mem hfile
  rw [← hc.records hr] at hmem
  obtain ⟨x, hx, heq⟩ := List.mem_map.mp hmem
  obtain ⟨hx, hk⟩ := List.mem_filter.mp hx
  exact ⟨x, hx, by simpa using hk, congrArg Record.file heq⟩

/-- A call and how far it has come. -/
theorem getElem? (hc : Continues w h calls c) (k : Nat) :
    calls[k]? = (c.recorders[k]?).map Recorder.toCall := by
  rw [← hc.started, List.getElem?_map]

end Continues

/-- A call that has ended well has recorded the files that its inputs lead to, up to the first input
that leads nowhere. -/
theorem files_of_endsWell {r : Recorder} (hfiles : r.files.map .ok <+: r.inputs.map (r.resolve w))
    (hends : r.EndsWell w) :
    r.files.map .ok = (r.inputs.map (r.resolve w)).takeWhile Except.isOk := by
  obtain ⟨hnext, hfailure⟩ := hends
  obtain ⟨rest, hrest⟩ := hfiles
  -- What comes after the files that were recorded.
  have hhead : rest.head? = (r.inputs[r.files.length]?).map (r.resolve w) := by
    rw [← List.getElem?_map, ← hrest, List.getElem?_append_right (by simp), List.length_map,
      Nat.sub_self, List.head?_eq_getElem?]
  have hnone : rest.takeWhile Except.isOk = [] := by
    cases hf : r.failure with
    | none =>
      rw [Recorder.next?, if_pos hf] at hnext
      rw [hnext, Option.map_none, List.head?_eq_none_iff] at hhead
      rw [hhead]
      rfl
    | some e =>
      rw [hfailure e hf] at hhead
      obtain ⟨rest', rfl⟩ := List.head?_eq_some_iff.mp hhead
      rfl
  have hall : ∀ x ∈ r.files.map (.ok : Text → Except Failure Text), Except.isOk x = true := by
    intro x hx
    obtain ⟨file, -, rfl⟩ := List.mem_map.mp hx
    rfl
  rw [← hrest, List.takeWhile_append_of_pos hall, hnone, List.append_nil]

/-- The inputs of different calls lead to different files. -/
def AreApart (w : World) (calls : List Call) : Prop :=
  calls.Pairwise fun a b => ∀ file ∈ a.targets w, file ∉ b.targets w

instance (w : World) (calls : List Call) : Decidable (AreApart w calls) :=
  inferInstanceAs (Decidable (List.Pairwise _ _))

/-- What calls that recorded at the same time leave. -/
structure Recorded (w : World) (h : Handle) (calls : List Call) (c : Crew) : Prop where
  /-- A file has one row, which is that of the call that recorded it last. -/
  last : ∀ {before x after}, c.written = before ++ x :: after →
    (∀ y ∈ after, y.record.file ≠ x.record.file) → ∃ call, calls[x.number]? = some call ∧
      c.world.rowsFor h x.record.file =
        [Row.ofRecord (call.invocation.recordFor x.record.file)]
  /-- All other files have the rows they had. -/
  other : ∀ {file}, (∀ x ∈ c.written, x.record.file ≠ file) →
    c.world.rowsFor h file = w.rowsFor h file
  /-- A call has put the records of the files that its first inputs lead to. -/
  first : ∀ {k : Nat} {call : Call}, calls[k]? = some call → ∃ (inputs files : List Text),
    inputs <+: call.inputs ∧ inputs.map (call.resolve w) = files.map .ok ∧
    (c.written.filter (·.number = k)).map Written.record = files.map call.invocation.recordFor

/-- The rows of a file after all records were put. -/
theorem Continues.rowsFor (hc : Continues w h calls c)
    (hsorted : ∀ rows, w.table? h = some rows → rows.IsSorted) {rows : Table}
    (hrows : w.table? h = some rows) (file : Text) :
    c.world.rowsFor h file = ((Table.putEach c.written rows).get? file).toList := by
  rw [World.rowsFor, hc.rows, hrows, Option.map_some, Option.getD_some]
  exact ((hsorted rows hrows).putEach c.written).filter_eq file

theorem Continues.recorded (hc : Continues w h calls c)
    (hsorted : ∀ rows, w.table? h = some rows → rows.IsSorted) : Recorded w h calls c where
  last {before x after} hsplit hlast := by
    have hx : x ∈ c.written := by
      rw [hsplit]
      exact List.mem_append_right _ List.mem_cons_self
    obtain ⟨r, hr, -, hrecord⟩ := hc.recorder hx
    obtain ⟨rows, hrows⟩ := Option.isSome_iff_exists.mp
      (hc.table.resolve_left (List.ne_nil_of_mem hx))
    refine ⟨r.toCall, by rw [hc.getElem?, hr, Option.map_some], ?_⟩
    rw [hc.rowsFor hsorted hrows, hsplit, Table.get?_putEach_of_last before hlast, ← hrecord]
    rfl
  other {file} hnone := by
    cases hrows : w.table? h with
    | none => rw [World.rowsFor, World.rowsFor, hc.rows, hrows, Option.map_none]
    | some rows =>
      rw [hc.rowsFor hsorted hrows, Table.get?_putEach_of_ne hnone, World.rowsFor, hrows,
        Option.getD_some, (hsorted rows hrows).filter_eq]
  first {k call} hcall := by
    rw [hc.getElem?, Option.map_eq_some_iff] at hcall
    obtain ⟨r, hr, rfl⟩ := hcall
    have hfiles := hc.files r (List.mem_of_getElem? hr)
    refine ⟨r.inputs.take r.files.length, r.files, List.take_prefix _ _, ?_, hc.records hr⟩
    rw [List.map_take, List.prefix_iff_eq_take.mp hfiles, List.length_map]

/-- Two runs in which all calls have ended well have recorded the same files. -/
theorem Continues.files_eq {c' : Crew} (hc : Continues w h calls c) (hc' : Continues w h calls c')
    (hends : ∀ r ∈ c.recorders, r.EndsWell w) (hends' : ∀ r ∈ c'.recorders, r.EndsWell w)
    {k : Nat} {r : Recorder} (hr : c.recorders[k]? = some r) :
    ∃ r', c'.recorders[k]? = some r' ∧ r'.toCall = r.toCall ∧ r'.files = r.files := by
  have hcall := hc.getElem? k
  rw [hr, Option.map_some, hc'.getElem?, Option.map_eq_some_iff] at hcall
  obtain ⟨r', hr', hsame⟩ := hcall
  refine ⟨r', hr', hsame, ?_⟩
  have hmem := List.mem_of_getElem? hr
  have hmem' := List.mem_of_getElem? hr'
  have hfiles := files_of_endsWell (hc.files r hmem) (hends r hmem)
  have hfiles' := files_of_endsWell (hc'.files r' hmem') (hends' r' hmem')
  rw [hsame, ← hfiles] at hfiles'
  exact List.map_injective_iff.mpr (fun _ _ => Except.ok.inj) hfiles'

/-- What one run has recorded, the other one has recorded as well. -/
theorem Continues.written_again {c' : Crew} (hc : Continues w h calls c)
    (hc' : Continues w h calls c') (hends : ∀ r ∈ c.recorders, r.EndsWell w)
    (hends' : ∀ r ∈ c'.recorders, r.EndsWell w) {x : Written} (hx : x ∈ c.written) :
    ∃ x' ∈ c'.written, x'.record.file = x.record.file := by
  obtain ⟨r, hr, hfile, -⟩ := hc.recorder hx
  obtain ⟨r', hr', -, hfiles⟩ := hc.files_eq hc' hends hends' hr
  obtain ⟨x', hx', -, hsame⟩ := hc'.exists_written hr' (hfiles ▸ hfile)
  exact ⟨x', hx', hsame⟩

/-- A record is that of its call, for a file that one of the inputs leads to. -/
theorem Continues.call (hc : Continues w h calls c) {x : Written} (hx : x ∈ c.written) :
    ∃ call, calls[x.number]? = some call ∧ x.record.file ∈ call.targets w ∧
      x.record = call.invocation.recordFor x.record.file := by
  obtain ⟨r, hr, hfile, hrecord⟩ := hc.recorder hx
  refine ⟨r.toCall, by rw [hc.getElem?, hr, Option.map_some], ?_, hrecord⟩
  have hok : .ok x.record.file ∈ r.inputs.map (r.resolve w) :=
    (hc.files r (List.mem_of_getElem? hr)).subset (List.mem_map_of_mem hfile)
  obtain ⟨input, hinput, hresolve⟩ := List.mem_map.mp hok
  exact List.mem_filterMap.mpr ⟨input, hinput, by rw [hresolve]; rfl⟩

/-- A file that one call alone has recorded has the same record in all runs. -/
theorem Continues.record_eq {c' : Crew} (hc : Continues w h calls c)
    (hc' : Continues w h calls c') (hapart : AreApart w calls) {x x' : Written}
    (hx : x ∈ c.written) (hx' : x' ∈ c'.written) (hfile : x'.record.file = x.record.file) :
    x'.record = x.record := by
  obtain ⟨call, hcall, htarget, hrecord⟩ := hc.call hx
  obtain ⟨call', hcall', htarget', hrecord'⟩ := hc'.call hx'
  rw [hfile] at htarget' hrecord'
  obtain ⟨hk, rfl⟩ := List.getElem?_eq_some_iff.mp hcall
  obtain ⟨hk', rfl⟩ := List.getElem?_eq_some_iff.mp hcall'
  have hnumber : x'.number = x.number := by
    rcases Nat.lt_trichotomy x'.number x.number with hlt | heq | hlt
    · exact absurd htarget (List.pairwise_iff_getElem.mp hapart _ _ hk' hk hlt _ htarget')
    · exact heq
    · exact absurd htarget' (List.pairwise_iff_getElem.mp hapart _ _ hk hk' hlt _ htarget)
  rw [hrecord, hrecord']
  simp only [hnumber]

/-- Calls whose inputs lead to different files leave the same rows, in whatever order they
record. -/
theorem Continues.rows_eq {c' : Crew} (hc : Continues w h calls c) (hc' : Continues w h calls c')
    (hsorted : ∀ rows, w.table? h = some rows → rows.IsSorted) (hapart : AreApart w calls)
    (hends : ∀ r ∈ c.recorders, r.EndsWell w) (hends' : ∀ r ∈ c'.recorders, r.EndsWell w) :
    c.world.table? h = c'.world.table? h := by
  rw [hc.rows, hc'.rows]
  cases hrows : w.table? h with
  | none => rfl
  | some rows =>
  rw [Option.map_some, Option.map_some, Option.some.injEq]
  refine ((hsorted rows hrows).putEach _).ext ((hsorted rows hrows).putEach _) fun file => ?_
  rcases Table.last_cases c.written file with hnone | ⟨before, x, after, hsplit, rfl, hlast⟩
  · rcases Table.last_cases c'.written file with hnone' | ⟨before', x', after', hsplit', rfl, -⟩
    · rw [Table.get?_putEach_of_ne hnone, Table.get?_putEach_of_ne hnone']
    · obtain ⟨y, hy, hfile⟩ := hc'.written_again hc hends' hends (x := x') (by simp [hsplit'])
      exact absurd hfile (hnone y hy)
  · have hx : x ∈ c.written := by simp [hsplit]
    rcases Table.last_cases c'.written x.record.file with
      hnone' | ⟨before', x', after', hsplit', hfile, hlast'⟩
    · obtain ⟨y, hy, hfile⟩ := hc.written_again hc' hends hends' hx
      exact absurd hfile (hnone' y hy)
    · have hx' : x' ∈ c'.written := by simp [hsplit']
      have hafter := Table.get?_putEach_of_last before' (hfile.symm ▸ hlast') rows
      rw [hsplit, hsplit', Table.get?_putEach_of_last before hlast, ← hfile, hafter,
        hc.record_eq hc' hapart hx hx' hfile]

/-! ## 6. The theorem -/

/-- **Calls that record at the same time lose, double and mix up nothing.** -/
theorem record_interleaved (hw : w.IsInStep h)
    (hsorted : ∀ rows, w.table? h = some rows → rows.IsSorted)
    (hopen : ∀ call ∈ calls, call.store.IsOpenOn w h) {moves : List Move}
    (hmoves : (begin w calls).Along (Allows w h) moves) :
    Recorded w h calls ((begin w calls).run moves) ∧
      (AreApart w calls → (∀ r ∈ ((begin w calls).run moves).recorders, r.EndsWell w) →
        ∀ {moves'}, (begin w calls).Along (Allows w h) moves' →
          (∀ r ∈ ((begin w calls).run moves').recorders, r.EndsWell w) →
          ((begin w calls).run moves').world.table? h =
            ((begin w calls).run moves).world.table? h) := by
  have hbegin := begin_continues hw hopen
  have hrun := run_continues hbegin hmoves
  refine ⟨hrun.recorded hsorted, fun hapart hends moves' hmoves' hends' => ?_⟩
  exact (run_continues hbegin hmoves').rows_eq hrun hsorted hapart hends' hends

/-- Two sources, a link to the first of them, and a database. -/
def sharedRoot : World :=
  World.written [(["a.c"], .file 0), (["b.c"], .file 1), (["l.c"], .link "/a.c"),
    (["x.db"], .file 2)] [.text [], .text [], .text []]

/-- The world in which two stores have been opened on the database. -/
def sharedWorld : World :=
  (Store.openAt (Store.openAt sharedRoot "/x.db" (.finite false 5 0)).1 "/x.db"
    (.finite false 5 0)).1

/-- A call through the store with a number. -/
def sharedCall (k : Nat) (driver : Text) (inputs : List Text) : Call :=
  ⟨⟨"/x.db", .finite false 5 0, k⟩, ⟨driver, [], "/"⟩, inputs⟩

theorem sharedWorld_isInStep : sharedWorld.IsInStep ⟨2, some ["x.db"]⟩ := by
  have hroot : sharedRoot.IsInStep ⟨2, some ["x.db"]⟩ := by
    refine Store.isInStep_of_unused ⟨Disk.isTree_of_entries (by decide) (by decide), rfl⟩
      ⟨by decide, fun hp => ?_⟩ (by simp [sharedRoot, World.written])
    rw [← Option.some.inj hp]
    decide
  have hplace : Store.place? sharedRoot "/x.db" = some (["x.db"] : Place) := by
    decide
  have hopened := (Store.openAt_inStep hroot rfl hplace (.finite false 5 0)).1
  exact (Store.openAt_inStep hopened rfl (by decide) (.finite false 5 0)).1

theorem sharedWorld_table : sharedWorld.table? ⟨2, some ["x.db"]⟩ = some [] := by
  decide

theorem sharedWorld_isSorted {rows : Table}
    (hrows : sharedWorld.table? ⟨2, some ["x.db"]⟩ = some rows) : rows.IsSorted := by
  rw [sharedWorld_table] at hrows
  obtain rfl := Option.some.inj hrows
  exact Table.isSorted_nil

/-- Two calls that record the first source under different names, and while one of them is kept
from going on; and two calls for different sources, one way and the other. -/
theorem record_interleaved_sharedWorld :
    Recorded sharedWorld ⟨2, some ["x.db"]⟩
        [sharedCall 0 "cc" ["a.c", "b.c"], sharedCall 1 "clang" ["l.c", "b.c"]]
        ((begin sharedWorld [sharedCall 0 "cc" ["a.c", "b.c"],
          sharedCall 1 "clang" ["l.c", "b.c"]]).run [.record 0, .record 1,
            .lock "/x.db" .immediate, .record 1, .unlock "/x.db", .record 0]) ∧
      ((begin sharedWorld [sharedCall 0 "cc" ["a.c", "b.c"],
          sharedCall 1 "clang" ["l.c", "b.c"]]).run [.record 0, .record 1,
            .lock "/x.db" .immediate, .record 1, .unlock "/x.db", .record 0]).world.table?
        ⟨2, some ["x.db"]⟩ = some [⟨"/a.c", "clang", "", "/"⟩, ⟨"/b.c", "cc", "", "/"⟩] ∧
      ((begin sharedWorld [sharedCall 0 "cc" ["a.c"], sharedCall 1 "clang" ["b.c"]]).run
        [.record 1, .record 0]).world.table? ⟨2, some ["x.db"]⟩ =
      ((begin sharedWorld [sharedCall 0 "cc" ["a.c"], sharedCall 1 "clang" ["b.c"]]).run
        [.record 0, .record 1]).world.table? ⟨2, some ["x.db"]⟩ := by
  have hsorted : ∀ rows, sharedWorld.table? ⟨2, some ["x.db"]⟩ = some rows → rows.IsSorted :=
    fun _ => sharedWorld_isSorted
  refine ⟨?_, by decide, ?_⟩
  · exact (record_interleaved sharedWorld_isInStep hsorted (by decide) (by decide)).1
  · exact (record_interleaved sharedWorld_isInStep hsorted (by decide) (by decide)).2 (by decide)
      (by decide) (by decide) (by decide)

/-- A store on the database that is open from the beginning, another one that is kept where the
log of the database goes, and a third one that is opened on the database after that: it has recorded
the first source, in the log, and the log has gone with it. -/
def staleWorld : World :=
  let w := World.written [(["a.c"], .file 0), (["b.c"], .file 1)] [.text [], .text []]
  let w := (Store.openAt w "/x.db" (.finite false 5 0)).1
  let w := (Store.openAt w "/x.db-wal" (.finite false 5 0)).1
  let w := (Store.openAt w "/x.db" (.finite false 5 0)).1
  let call := sharedCall 2 "cc" ["a.c"]
  call.store.close (record call.store call.invocation w call.inputs).world

/-- The row is in the table. -/
theorem staleWorld_holds :
    staleWorld.IsSound ∧ staleWorld.Hosts ⟨2, some ["x.db"]⟩ ∧
      staleWorld.table? ⟨2, some ["x.db"]⟩ = some [⟨"/a.c", "cc", "", "/"⟩] := by
  refine ⟨⟨Disk.isTree_of_entries (by decide +kernel) (by decide +kernel), by decide +kernel⟩,
    ⟨by decide +kernel, fun hp => ?_⟩, by decide +kernel⟩
  rw [← Option.some.inj hp]
  decide +kernel

theorem staleWorld_isSorted {rows : Table}
    (hrows : staleWorld.table? ⟨2, some ["x.db"]⟩ = some rows) : rows.IsSorted := by
  obtain ⟨-, -, htable⟩ := staleWorld_holds
  obtain rfl := Option.some.inj (htable.symm.trans hrows)
  exact List.pairwise_singleton _ _

/-- Stores that are not in step lose rows: the first store does not know of the row that went
through the log, and nothing tells it that the file has changed. -/
theorem not_recorded_of_isOpenOn :
    ¬∀ (w : World) (h : Handle) (calls : List Call) (moves : List Move), w.IsSound → w.Hosts h →
      (∀ rows, w.table? h = some rows → rows.IsSorted) →
      (∀ call ∈ calls, call.store.IsOpenOn w h) →
      (begin w calls).Along (Allows w h) moves → Recorded w h calls ((begin w calls).run moves) := by
  intro hall
  obtain ⟨hsound, hhosts, -⟩ := staleWorld_holds
  have hrecorded := hall staleWorld ⟨2, some ["x.db"]⟩ [sharedCall 0 "cc" ["b.c"]] [.record 0]
    hsound hhosts (fun _ => staleWorld_isSorted) (by decide +kernel) (by decide +kernel)
  have hkept : World.rowsFor _ _ "/a.c" = staleWorld.rowsFor ⟨2, some ["x.db"]⟩ "/a.c" :=
    hrecorded.other (by decide +kernel)
  exact absurd hkept (by decide +kernel)

end Crew

end CompileJournal
