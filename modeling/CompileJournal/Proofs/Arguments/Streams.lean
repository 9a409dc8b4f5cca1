import CompileJournal.Proofs.Arguments.Positions
import Mathlib.Data.List.InsertIdx

/-!
# The two parts of the arguments, each by itself

An input is no value, so no flag waits in front of it, and it leaves none waiting behind it.  What
stands in front of it and what stands behind it are therefore read alike whether it is there or
not, also if detached flags stand on both sides.

So the flags read again are flags, the inputs read again are inputs, and an input that is taken
away or put in changes what no other argument is taken for.

* `readings_append`: what is written behind arguments is read for itself;
* `readings_of_input`: the reading around an input, and without it;
* `classifyWith_eraseIdx`, `classifyWith_insertIdx`: an input taken away, and put in;
* `classifyWith_inputs`: the inputs alone are inputs;
* `classify_streams`: all of it, for the arguments of a compiler.
-/

namespace CompileJournal

variable {table : ValueFlags} {isSource : Text → Bool}

/-! ## 1. Arguments behind arguments -/

/-- **What is written behind arguments is read for itself**, unless a flag waits for its first
token. -/
theorem readings_append {arguments : List Text} (h : table.endsOpen arguments = false)
    (more : List Text) : readings table isSource (arguments ++ more) =
      readings table isSource arguments ++ readings table isSource more := by
  induction arguments using table.arguments_induction with
  | nil => rfl
  | last flag hflag => exact absurd h (by simp [ValueFlags.endsOpen_single, hflag])
  | pair flag value rest hflag ih =>
    rw [ValueFlags.endsOpen_pair hflag] at h
    rw [List.cons_append, List.cons_append, readings_pair hflag, readings_pair hflag, ih h]
    rfl
  | alone token rest htoken ih =>
    rw [ValueFlags.endsOpen_cons_of_not htoken] at h
    rw [List.cons_append, readings_cons htoken, readings_cons htoken, ih h]
    rfl

theorem length_readings (arguments : List Text) :
    (readings table isSource arguments).length = arguments.length := by
  rw [← List.length_map Prod.fst, map_fst_readings]

/-! ## 2. One input -/

theorem getElem?_readings_append (before after : List Text) (token : Text) :
    (readings table isSource (before ++ token :: after))[before.length]? =
      some (token, Role.of table isSource (table.endsOpen before) token) := by
  rw [getElem?_readings, List.take_left, List.getElem?_append_right (Nat.le_refl _), Nat.sub_self,
    List.getElem?_cons_zero, Option.map_some]

/-- **The reading around an input**: the arguments in front of it and those behind it are read as
they are read without it. -/
theorem readings_of_input {before after : List Text} {token : Text}
    (h : (readings table isSource (before ++ token :: after))[before.length]? =
      some (token, .input)) :
    readings table isSource (before ++ token :: after) =
      readings table isSource before ++ (token, .input) :: readings table isSource after ∧
    readings table isSource (before ++ after) =
      readings table isSource before ++ readings table isSource after := by
  rw [getElem?_readings_append] at h
  have hrole : Role.of table isSource (table.endsOpen before) token = .input :=
    (Prod.mk.inj (Option.some.inj h)).2
  obtain ⟨hclosed, hinput⟩ := Role.of_eq_input_iff.mp hrole
  have hdetached : table.isDetached token = false := by
    rw [isInput, Bool.and_eq_true, Bool.and_eq_true, Bool.not_eq_true'] at hinput
    exact hinput.1.1
  constructor
  · rw [readings_append hclosed, readings_cons hdetached, if_pos hinput]
  · exact readings_append hclosed after

/-- A list around one of its entries. -/
private theorem eq_take_append_drop {α : Type} {list : List α} {k : Nat} {a : α}
    (h : list[k]? = some a) :
    k = (list.take k).length ∧ list = list.take k ++ a :: list.drop (k + 1) := by
  obtain ⟨hk, rfl⟩ := List.getElem?_eq_some_iff.mp h
  constructor
  · rw [List.length_take, Nat.min_eq_left (Nat.le_of_lt hk)]
  · rw [List.getElem_cons_drop, List.take_append_drop]

theorem getElem?_of_readings {arguments : List Text} {k : Nat} {token : Text} {role : Role}
    (h : (readings table isSource arguments)[k]? = some (token, role)) :
    arguments[k]? = some token := by
  rw [getElem?_readings] at h
  obtain ⟨token', htoken, heq⟩ := Option.map_eq_some_iff.mp h
  rw [htoken, (Prod.mk.inj heq).1]

/-- **An input taken away**: all other arguments are taken for what they were. -/
theorem readings_eraseIdx {arguments : List Text} {k : Nat} {token : Text}
    (h : (readings table isSource arguments)[k]? = some (token, .input)) :
    readings table isSource (arguments.eraseIdx k) =
      (readings table isSource arguments).eraseIdx k := by
  obtain ⟨hk, heq⟩ := eq_take_append_drop (getElem?_of_readings h)
  generalize arguments.take k = before at hk heq
  generalize arguments.drop (k + 1) = after at heq
  subst hk heq
  obtain ⟨hwith, hwithout⟩ := readings_of_input h
  have hlength : (readings table isSource before).length = before.length :=
    length_readings before
  rw [List.eraseIdx_append_of_length_le (Nat.le_refl _), Nat.sub_self, List.eraseIdx_cons_zero,
    hwith, hwithout, List.eraseIdx_append_of_length_le (Nat.le_of_eq hlength), hlength,
    Nat.sub_self, List.eraseIdx_cons_zero]

/-! ## 3. The two parts -/

/-- How many inputs a reading has in front of a position. -/
def inputsBefore (read : List (Text × Role)) (k : Nat) : Nat :=
  ((read.take k).filter (·.2 = .input)).length

/-- Without one of its inputs, a reading has the same flags, and all other inputs in their
order. -/
theorem ofReadings_eraseIdx {read : List (Text × Role)} {k : Nat} {token : Text}
    (h : read[k]? = some (token, .input)) :
    (Classified.ofReadings read).inputs[inputsBefore read k]? = some token ∧
    Classified.ofReadings (read.eraseIdx k) =
      ⟨(Classified.ofReadings read).flags,
        (Classified.ofReadings read).inputs.eraseIdx (inputsBefore read k)⟩ := by
  obtain ⟨hk, heq⟩ := eq_take_append_drop h
  unfold inputsBefore
  generalize read.take k = before at hk heq
  generalize read.drop (k + 1) = after at heq
  subst hk heq
  have hinputs : (Classified.ofReadings (before ++ (token, .input) :: after)).inputs =
      (before.filter (·.2 = .input)).map Prod.fst ++
        token :: (after.filter (·.2 = .input)).map Prod.fst := by
    simp [Classified.ofReadings]
  rw [hinputs, ← List.length_map Prod.fst]
  constructor
  · rw [List.getElem?_append_right (Nat.le_refl _), Nat.sub_self, List.getElem?_cons_zero]
  · rw [List.eraseIdx_append_of_length_le (Nat.le_refl _), Nat.sub_self, List.eraseIdx_cons_zero,
      List.eraseIdx_append_of_length_le (Nat.le_refl _), Nat.sub_self, List.eraseIdx_cons_zero]
    simp [Classified.ofReadings]

/-- **The flags of the arguments do not depend on one of the inputs**, nor do the other inputs. -/
theorem classifyWith_eraseIdx {arguments : List Text} {k : Nat} {token : Text}
    (h : (readings table isSource arguments)[k]? = some (token, .input)) :
    (classifyWith table isSource arguments).inputs[
        inputsBefore (readings table isSource arguments) k]? = some token ∧
    classifyWith table isSource (arguments.eraseIdx k) =
      ⟨(classifyWith table isSource arguments).flags,
        (classifyWith table isSource arguments).inputs.eraseIdx
          (inputsBefore (readings table isSource arguments) k)⟩ := by
  rw [classifyWith_eq_readings, classifyWith_eq_readings, readings_eraseIdx h]
  exact ofReadings_eraseIdx h

/-- An input put in is an input taken away, seen from the arguments that have it. -/
theorem classifyWith_insertIdx {arguments : List Text} {k : Nat} {token : Text}
    (h : (readings table isSource (arguments.insertIdx k token))[k]? = some (token, .input)) :
    inputsBefore (readings table isSource (arguments.insertIdx k token)) k ≤
      (classifyWith table isSource arguments).inputs.length ∧
    classifyWith table isSource (arguments.insertIdx k token) =
      ⟨(classifyWith table isSource arguments).flags,
        (classifyWith table isSource arguments).inputs.insertIdx
          (inputsBefore (readings table isSource (arguments.insertIdx k token)) k) token⟩ := by
  obtain ⟨htoken, herased⟩ := classifyWith_eraseIdx h
  rw [List.eraseIdx_insertIdx_self] at herased
  generalize inputsBefore _ k = j at htoken herased ⊢
  generalize classifyWith table isSource (arguments.insertIdx k token) = longer at htoken herased ⊢
  obtain ⟨hj, rfl⟩ := List.getElem?_eq_some_iff.mp htoken
  rw [herased]
  constructor
  · rw [List.length_eraseIdx_of_lt hj]
    omega
  · rw [List.insertIdx_eraseIdx_getElem hj]

/-- **The inputs alone hold no flag**, and all of them are inputs again. -/
theorem classifyWith_inputs (arguments : List Text) :
    classifyWith table isSource (classifyWith table isSource arguments).inputs =
      ⟨[], (classifyWith table isSource arguments).inputs⟩ := by
  induction arguments using table.arguments_induction with
  | nil => rfl
  | last flag hflag =>
    rw [classifyWith_last hflag]
    rfl
  | pair flag value rest hflag ih =>
    rw [classifyWith_pair hflag]
    exact ih
  | alone token rest htoken ih =>
    rw [classifyWith_cons htoken]
    split
    · next hinput =>
      simp only [Classified.addInput, classifyWith_cons htoken, if_pos hinput, ih]
    · exact ih

/-! ## 4. The arguments of a compiler -/

/-- **Each of the two parts is what is left of itself.**  The reading of the arguments goes through
all of them, and its inputs and all others are the two parts.  Read again, the flags are flags and
the inputs are inputs.  Taking away any one argument that is read as an input leaves the flags as
they are and takes that one out of the inputs; putting in a token at any place where the longer
list is read to have an input leaves the flags as they are and puts it into the inputs, behind
those that stand in front of it. -/
theorem classify_streams (w : World) (table : ValueFlags) (workdir : Text)
    (arguments : List Text) :
    (∀ tokens, (readings table (w.isSource workdir) tokens).map Prod.fst = tokens ∧
      classify w table workdir tokens =
        .ofReadings (readings table (w.isSource workdir) tokens)) ∧
    ∃ flags inputs, classify w table workdir arguments = ⟨flags, inputs⟩ ∧
      classify w table workdir flags = ⟨flags, []⟩ ∧
      classify w table workdir inputs = ⟨[], inputs⟩ ∧
      (∀ {k token read}, read = readings table (w.isSource workdir) arguments →
        read[k]? = some (token, .input) →
        inputs[inputsBefore read k]? = some token ∧
        classify w table workdir (arguments.eraseIdx k) =
          ⟨flags, inputs.eraseIdx (inputsBefore read k)⟩) ∧
      (∀ {k token read},
        read = readings table (w.isSource workdir) (arguments.insertIdx k token) →
        read[k]? = some (token, .input) →
        inputsBefore read k ≤ inputs.length ∧
        classify w table workdir (arguments.insertIdx k token) =
          ⟨flags, inputs.insertIdx (inputsBefore read k) token⟩) := by
  constructor
  · intro tokens
    exact ⟨map_fst_readings tokens, classifyWith_eq_readings tokens⟩
  · refine ⟨_, _, rfl, classifyWith_flags arguments, classifyWith_inputs arguments, ?_, ?_⟩
    · rintro k token _ rfl h
      exact classifyWith_eraseIdx h
    · rintro k token _ rfl h
      exact classifyWith_insertIdx h

/-- Between two pairs of a flag and its value, the file can be taken away and put in again; it does
not move the value `main.c` of the last flag. -/
theorem classify_streams_sourceWorld :
    (readings (.withExtra []) (sourceWorld.isSource "/")
        ["-o", "-o", "main.c", "-o", "main.c"])[2]? = some ("main.c".toList, .input) ∧
    classify sourceWorld (.withExtra []) "/"
        (List.eraseIdx ["-o", "-o", "main.c", "-o", "main.c"] 2) =
      ⟨["-o", "-o", "-o", "main.c"], []⟩ ∧
    classify sourceWorld (.withExtra []) "/"
        (List.insertIdx ["-o", "-o", "-o", "main.c"] 2 "main.c".toList) =
      ⟨["-o", "-o", "-o", "main.c"], ["main.c"]⟩ := by
  have hinput : (readings (.withExtra []) (sourceWorld.isSource "/")
      ["-o", "-o", "main.c", "-o", "main.c"])[2]? = some ("main.c".toList, .input) := by
    decide
  obtain ⟨-, flags, inputs, hlonger, -, -, herase, -⟩ :=
    classify_streams sourceWorld (.withExtra []) "/" ["-o", "-o", "main.c", "-o", "main.c"]
  obtain ⟨-, flags', inputs', hshorter, -, -, -, hinsert⟩ :=
    classify_streams sourceWorld (.withExtra []) "/" ["-o", "-o", "-o", "main.c"]
  have hall : (⟨flags, inputs⟩ : Classified) = ⟨["-o", "-o", "-o", "main.c"], ["main.c"]⟩ :=
    hlonger.symm.trans (by decide)
  have hrest : (⟨flags', inputs'⟩ : Classified) = ⟨["-o", "-o", "-o", "main.c"], []⟩ :=
    hshorter.symm.trans (by decide)
  obtain ⟨rfl, rfl⟩ := Classified.mk.inj hall
  obtain ⟨rfl, rfl⟩ := Classified.mk.inj hrest
  exact ⟨hinput, (herase rfl hinput).2, (hinsert rfl hinput).2⟩

end CompileJournal
