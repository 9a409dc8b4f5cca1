import CompileJournal.Proofs.Arguments.Pairing
import CompileJournal.Proofs.World.Small

/-!
# What an argument is taken for

The arguments of a compiler are read from left to right, and the reading jumps over the value of
a detached flag.  Whether an argument is jumped over hangs on all that was jumped over before it,
so in `-o -o -o main.c` the file is a value and in `-o -o main.c` it is not.  Seen from one
position, only the detached spellings right in front of it count: a flag waits there if they are
odd in number.

So the place where each argument goes can be told from its position alone, without the reading.

* `readings`: the reading, which says of each argument what it is taken for;
* `classifyWith_eq_readings`: the two parts of the arguments are read off it;
* `getElem?_readings`: what the argument at a position is taken for;
* `isDetached_withExtra`: the spellings that are detached;
* `classify_positions`: all of it.
-/

namespace CompileJournal

variable {table : ValueFlags} {isSource : Text → Bool}

/-! ## 1. The detached spellings -/

namespace ValueFlags

theorem isDetached_add (table : ValueFlags) (spelling token : Text) :
    (table.add spelling).isDetached token = (decide (token = spelling) || table.isDetached token) := by
  unfold isDetached add
  rw [List.lookup_cons]
  by_cases h : token = spelling
  · simp [h]
  · have hne : (token == spelling) = false := by simpa using h
    have hkeep : List.lookup token (table.filter (·.1 ≠ spelling)) = List.lookup token table :=
      (Disk.lookup_filter_fst table (fun k => decide (k ≠ spelling)) token).trans
        (by rw [decide_eq_true h, if_pos rfl])
    rw [hne, hkeep, decide_eq_false h, Bool.false_or]

theorem isDetached_standard (token : Text) :
    standard.isDetached token = true ↔ (token, true) ∈ standard := by
  -- No spelling stands twice in the table.
  have hfirst : ∀ e ∈ standard, standard.lookup e.1 = some e.2 := by decide
  constructor
  · intro h
    unfold isDetached at h
    cases hlook : standard.lookup token with
    | none =>
      rw [hlook] at h
      exact absurd h (by simp)
    | some detached =>
      rw [hlook] at h
      obtain rfl : detached = true := h
      obtain ⟨before, after, heq, -⟩ := List.lookup_eq_some_iff.mp hlook
      rw [heq]
      exact List.mem_append_right _ List.mem_cons_self
  · intro h
    rw [isDetached, hfirst _ h]
    rfl

/-- **The detached spellings** are those of the standard table and the extra ones. -/
theorem isDetached_withExtra (extra : List Text) (token : Text) :
    (withExtra extra).isDetached token = true ↔ (token, true) ∈ standard ∨ token ∈ extra := by
  have hfold : ∀ (extra : List Text) (table : ValueFlags),
      (extra.foldl add table).isDetached token = true ↔
        table.isDetached token = true ∨ token ∈ extra := by
    intro extra
    induction extra with
    | nil => simp
    | cons spelling extra ih =>
      intro table
      rw [List.foldl_cons, ih, isDetached_add, Bool.or_eq_true, decide_eq_true_iff,
        List.mem_cons]
      tauto
  rw [withExtra, hfold, isDetached_standard]

end ValueFlags

/-- Arguments are split alike by tables with the same detached spellings. -/
theorem classifyWith_congr {table' : ValueFlags}
    (h : ∀ token, table'.isDetached token = table.isDetached token) (arguments : List Text) :
    classifyWith table' isSource arguments = classifyWith table isSource arguments := by
  induction arguments using table.arguments_induction with
  | nil => rfl
  | last flag hflag => rw [classifyWith_last ((h flag).trans hflag), classifyWith_last hflag]
  | pair flag value rest hflag ih =>
    rw [classifyWith_pair ((h flag).trans hflag), classifyWith_pair hflag, ih]
  | alone token rest htoken ih =>
    rw [classifyWith_cons ((h token).trans htoken), classifyWith_cons htoken, isInput, isInput, h,
      ih]

/-! ## 2. The reading -/

/-- What an argument is taken for. -/
inductive Role where
  | flag
  /-- The value of the flag in front of it. -/
  | value
  | input
  deriving DecidableEq, Repr

/-- The arguments from left to right, each with what it is taken for. -/
def readings (table : ValueFlags) (isSource : Text → Bool) : List Text → List (Text × Role)
  | [] => []
  | token :: rest =>
    if table.isDetached token then
      match rest with
      | [] => [(token, .flag)]
      | value :: rest => (token, .flag) :: (value, .value) :: readings table isSource rest
    else if isInput table isSource token then (token, .input) :: readings table isSource rest
    else (token, .flag) :: readings table isSource rest

theorem readings_pair {flag : Text} (h : table.isDetached flag = true) (value : Text)
    (rest : List Text) : readings table isSource (flag :: value :: rest) =
      (flag, .flag) :: (value, .value) :: readings table isSource rest :=
  if_pos h

theorem readings_last {flag : Text} (h : table.isDetached flag = true) :
    readings table isSource [flag] = [(flag, .flag)] :=
  if_pos h

theorem readings_cons {token : Text} (h : table.isDetached token = false) (rest : List Text) :
    readings table isSource (token :: rest) =
      (token, if isInput table isSource token then .input else .flag) ::
        readings table isSource rest := by
  rw [readings.eq_def]
  simp only [h, Bool.false_eq_true, if_false]
  split <;> rfl

/-- Nothing is lost, doubled, altered or moved by the reading. -/
theorem map_fst_readings (arguments : List Text) :
    (readings table isSource arguments).map Prod.fst = arguments := by
  induction arguments using table.arguments_induction with
  | nil => rfl
  | last flag hflag => rw [readings_last hflag, List.map_singleton]
  | pair flag value rest hflag ih =>
    rw [readings_pair hflag, List.map_cons, List.map_cons, ih]
  | alone token rest htoken ih => rw [readings_cons htoken, List.map_cons, ih]

/-- The arguments that a reading takes for inputs, and the others. -/
def Classified.ofReadings (read : List (Text × Role)) : Classified :=
  ⟨(read.filter (·.2 ≠ .input)).map Prod.fst, (read.filter (·.2 = .input)).map Prod.fst⟩

/-- **The two parts of the arguments are read off the reading**: the inputs, and all others. -/
theorem classifyWith_eq_readings (arguments : List Text) :
    classifyWith table isSource arguments = .ofReadings (readings table isSource arguments) := by
  induction arguments using table.arguments_induction with
  | nil => rfl
  | last flag hflag =>
    rw [classifyWith_last hflag, readings_last hflag]
    rfl
  | pair flag value rest hflag ih =>
    rw [classifyWith_pair hflag, readings_pair hflag, ih]
    rfl
  | alone token rest htoken ih =>
    rw [classifyWith_cons htoken, readings_cons htoken, ih]
    split <;> rfl

/-! ## 3. One position -/

/-- What an argument is taken for, if it is known whether a flag waits for it. -/
def Role.of (table : ValueFlags) (isSource : Text → Bool) (waits : Bool) (token : Text) : Role :=
  if waits then .value else if isInput table isSource token then .input else .flag

theorem Role.of_detached {flag : Text} (h : table.isDetached flag = true) :
    Role.of table isSource false flag = .flag := by
  simp [Role.of, isInput, h]

/-- **What the argument at a position is taken for** depends on the arguments in front of it only
in whether a flag waits there. -/
theorem getElem?_readings (arguments : List Text) (k : Nat) :
    (readings table isSource arguments)[k]? = arguments[k]?.map fun token =>
      (token, Role.of table isSource (table.endsOpen (arguments.take k)) token) := by
  induction arguments using table.arguments_induction generalizing k with
  | nil => rfl
  | last flag hflag =>
    rw [readings_last hflag]
    cases k with
    | zero => simp [Role.of_detached hflag]
    | succ k => rfl
  | pair flag value rest hflag ih =>
    rw [readings_pair hflag]
    cases k with
    | zero => simp [Role.of_detached hflag]
    | succ k =>
    cases k with
    | zero => simp [ValueFlags.endsOpen_single, hflag, Role.of]
    | succ k =>
      rw [List.take_succ_cons, List.take_succ_cons, ValueFlags.endsOpen_pair hflag]
      exact ih k
  | alone token rest htoken ih =>
    rw [readings_cons htoken]
    cases k with
    | zero => rfl
    | succ k =>
      rw [List.take_succ_cons, ValueFlags.endsOpen_cons_of_not htoken]
      exact ih k

theorem Role.of_eq_value_iff {waits : Bool} {token : Text} :
    Role.of table isSource waits token = .value ↔ waits = true := by
  unfold Role.of
  cases waits <;> simp
  split <;> simp

theorem Role.of_eq_input_iff {waits : Bool} {token : Text} :
    Role.of table isSource waits token = .input ↔
      waits = false ∧ isInput table isSource token = true := by
  unfold Role.of
  cases waits <;> simp

/-- A token is no flag if its first character is none of a flag. -/
theorem not_flag_iff (token : Text) :
    Text.beginsWith token flagMark = false ↔ token.head? ≠ some '-' := by
  cases token with
  | nil => simp [Text.beginsWith, flagMark]
  | cons c token =>
    have hfirst : Text.beginsWith (c :: token) flagMark = ('-' == c) := Bool.and_true _
    rw [hfirst, List.head?_cons, beq_eq_false_iff_ne, Ne, Ne, Option.some.injEq, eq_comm]

/-! ## 4. Every argument by its position -/

/-- **Where an argument goes is told from its position.**  The detached spellings are those of the
standard table and the extra ones, in whatever order and however often these are given.  The
reading goes through all arguments in their order; an argument is the value of a flag if and only
if the detached spellings right in front of it, as many as there are, are odd in number, and it is
an input if and only if it is no value, not detached, does not start with a dash, has an extension
and leads to a regular file.  The inputs and the other arguments, each in their order, are the two
parts. -/
theorem classify_positions (w : World) (extra : List Text) (workdir : Text)
    (arguments : List Text) :
    (∀ token, (ValueFlags.withExtra extra).isDetached token = true ↔
      (token, true) ∈ ValueFlags.standard ∨ token ∈ extra) ∧
    (∀ {extra'}, (∀ token, token ∈ extra' ↔ token ∈ extra) →
      classify w (ValueFlags.withExtra extra') workdir arguments =
        classify w (ValueFlags.withExtra extra) workdir arguments) ∧
    ∃ read, read = readings (ValueFlags.withExtra extra) (w.isSource workdir) arguments ∧
      read.map Prod.fst = arguments ∧
      classify w (ValueFlags.withExtra extra) workdir arguments =
        ⟨(read.filter (·.2 ≠ .input)).map Prod.fst, (read.filter (·.2 = .input)).map Prod.fst⟩ ∧
      ∀ {k token role}, read[k]? = some (token, role) →
        (role = .value ↔
          Odd ((ValueFlags.withExtra extra).trailing (arguments.take k))) ∧
        (role = .input ↔
          ¬Odd ((ValueFlags.withExtra extra).trailing (arguments.take k)) ∧
            (ValueFlags.withExtra extra).isDetached token = false ∧ token.head? ≠ some '-' ∧
            Path.hasExtension token = true ∧ w.isFile (Path.join workdir token) = true) := by
  refine ⟨ValueFlags.isDetached_withExtra extra, fun {extra'} hsame => ?_, _, rfl,
    map_fst_readings arguments, classifyWith_eq_readings arguments, fun {k token role} hk => ?_⟩
  · refine classifyWith_congr (fun token => ?_) arguments
    rw [Bool.eq_iff_iff, ValueFlags.isDetached_withExtra, ValueFlags.isDetached_withExtra, hsame]
  · rw [getElem?_readings] at hk
    obtain ⟨token', -, heq⟩ := Option.map_eq_some_iff.mp hk
    obtain ⟨rfl, rfl⟩ := Prod.mk.inj heq
    rw [Role.of_eq_value_iff, Role.of_eq_input_iff, ← ValueFlags.endsOpen_iff_odd,
      Bool.not_eq_true]
    refine ⟨Iff.rfl, and_congr_right fun _ => ?_⟩
    rw [isInput, World.isSource, Bool.and_eq_true, Bool.and_eq_true, Bool.and_eq_true,
      Bool.not_eq_true', Bool.not_eq_true', not_flag_iff, and_assoc]

/-- The root with a source file. -/
def sourceWorld : World := World.written [(["main.c"], .file 0)] [.text []]

/-- Three detached spellings take the file for their value, and two leave it alone. -/
theorem classify_positions_sourceWorld :
    ((readings (.withExtra []) (sourceWorld.isSource "/") ["-o", "-o", "-o", "main.c"])[3]? =
        some ("main.c".toList, .value) ∧
      Odd (ValueFlags.trailing (.withExtra []) ["-o", "-o", "-o"])) ∧
    ((readings (.withExtra []) (sourceWorld.isSource "/") ["-o", "-o", "main.c"])[2]? =
        some ("main.c".toList, .input) ∧
      ¬Odd (ValueFlags.trailing (.withExtra []) ["-o", "-o"]) ∧
      sourceWorld.isFile (Path.join "/" "main.c") = true) := by
  obtain ⟨-, -, _, rfl, -, -, hthree⟩ :=
    classify_positions sourceWorld [] "/" ["-o", "-o", "-o", "main.c"]
  obtain ⟨-, -, _, rfl, -, -, htwo⟩ := classify_positions sourceWorld [] "/" ["-o", "-o", "main.c"]
  have hvalue : (readings (.withExtra []) (sourceWorld.isSource "/")
      ["-o", "-o", "-o", "main.c"])[3]? = some ("main.c".toList, .value) := by
    decide
  have hinput : (readings (.withExtra []) (sourceWorld.isSource "/")
      ["-o", "-o", "main.c"])[2]? = some ("main.c".toList, .input) := by
    decide
  obtain ⟨heven, -, -, -, hfile⟩ := (htwo hinput).2.mp rfl
  exact ⟨⟨hvalue, (hthree hvalue).1.mp rfl⟩, hinput, heven, hfile⟩

end CompileJournal
