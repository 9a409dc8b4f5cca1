import CompileJournal.Arguments.Classify
import Mathlib.Algebra.Ring.Parity
import Mathlib.Data.List.Induction

/-!
# Flags next to their values

The arguments of a compiler are read from left to right, and all that an argument leaves behind is
whether a detached flag still waits for its value.  An input never stands between the two: the
value of a flag is not asked whether it could be an input.  So the flags that are left without the
inputs are paired as they were before, and so is what is written behind them.

* `arguments_induction`: how arguments are read, as an induction;
* `endsOpen_iff_odd`: a flag waits at the end if the detached spellings that stand there are odd
  in number;
* `classifyWith_append`: what is written behind arguments is split for itself, but for a value that
  is waited for;
* `classifyWith_flags`: the flags alone hold no input;
* `classifyWith_flags_append`: what becomes of one more argument behind the flags.
-/

namespace CompileJournal

variable {table : ValueFlags} {isSource : Text → Bool}

/-! ## 1. Waiting for a value -/

namespace ValueFlags

/-- Whether arguments end in a detached flag that still waits for its value. -/
def endsOpen (table : ValueFlags) : List Text → Bool
  | [] => false
  | token :: rest =>
    if table.isDetached token then
      match rest with
      | [] => true
      | _ :: rest => endsOpen table rest
    else endsOpen table rest

/-- **Arguments are read one by one, but a detached flag with its value.**  What holds of no
arguments and is kept by each of these steps holds of all arguments. -/
@[elab_as_elim]
theorem arguments_induction (table : ValueFlags) {motive : List Text → Prop} (nil : motive [])
    (last : ∀ flag, table.isDetached flag = true → motive [flag])
    (pair : ∀ flag value rest, table.isDetached flag = true → motive rest →
      motive (flag :: value :: rest))
    (alone : ∀ token rest, table.isDetached token = false → motive rest → motive (token :: rest)) :
    ∀ arguments, motive arguments
  | [] => nil
  | token :: rest =>
    match h : table.isDetached token with
    | false => alone token rest h (arguments_induction table nil last pair alone rest)
    | true =>
      match rest with
      | [] => last token h
      | value :: rest =>
        pair token value rest h (arguments_induction table nil last pair alone rest)

/-- How many detached spellings stand at the end of arguments, one right behind the other. -/
def trailing (table : ValueFlags) (arguments : List Text) : Nat :=
  (arguments.reverse.takeWhile table.isDetached).length

@[simp] theorem endsOpen_nil : table.endsOpen [] = false :=
  rfl

theorem endsOpen_cons_of_not {token : Text} (h : table.isDetached token = false)
    (rest : List Text) : table.endsOpen (token :: rest) = table.endsOpen rest := by
  have hnot : ¬table.isDetached token = true := by simp [h]
  cases rest with
  | nil => exact if_neg hnot
  | cons value rest => exact if_neg hnot

theorem endsOpen_single (token : Text) : table.endsOpen [token] = table.isDetached token := by
  cases h : table.isDetached token with
  | true => exact if_pos h
  | false => exact endsOpen_cons_of_not h []

theorem endsOpen_pair {flag : Text} (h : table.isDetached flag = true) (value : Text)
    (rest : List Text) : table.endsOpen (flag :: value :: rest) = table.endsOpen rest :=
  if_pos h

/-- One more argument ends open if it is detached and nothing waited for it. -/
theorem endsOpen_concat (arguments : List Text) (token : Text) :
    table.endsOpen (arguments ++ [token]) =
      (!table.endsOpen arguments && table.isDetached token) := by
  induction arguments using table.arguments_induction with
  | nil => exact endsOpen_single token
  | last flag hflag =>
    rw [List.singleton_append, endsOpen_pair hflag, endsOpen_single, hflag]
    rfl
  | pair flag value rest hflag ih =>
    rw [List.cons_append, List.cons_append, endsOpen_pair hflag, endsOpen_pair hflag, ih]
  | alone first rest hfirst ih =>
    rw [List.cons_append, endsOpen_cons_of_not hfirst, endsOpen_cons_of_not hfirst, ih]

theorem trailing_concat (arguments : List Text) (token : Text) :
    table.trailing (arguments ++ [token]) =
      if table.isDetached token then table.trailing arguments + 1 else 0 := by
  unfold trailing
  rw [List.reverse_concat, List.takeWhile_cons]
  split <;> rfl

/-- **A flag waits at the end if the detached spellings that stand there are odd in number.** -/
theorem endsOpen_iff_odd (arguments : List Text) :
    table.endsOpen arguments = true ↔ Odd (table.trailing arguments) := by
  induction arguments using List.reverseRecOn with
  | nil => simp [trailing]
  | append_singleton arguments token ih =>
    rw [endsOpen_concat, trailing_concat]
    cases htoken : table.isDetached token with
    | false => simp
    | true =>
      rw [if_pos rfl, Nat.odd_add_one, ← ih]
      simp

theorem endsOpen_eq_false_iff (arguments : List Text) :
    table.endsOpen arguments = false ↔ Even (table.trailing arguments) := by
  rw [← Bool.not_eq_true, endsOpen_iff_odd, Nat.not_odd_iff_even]

end ValueFlags

/-! ## 2. Arguments behind arguments -/

open ValueFlags

theorem classifyWith_pair {flag : Text} (h : table.isDetached flag = true) (value : Text)
    (rest : List Text) : classifyWith table isSource (flag :: value :: rest) =
      ((classifyWith table isSource rest).addFlag value).addFlag flag :=
  if_pos h

theorem classifyWith_last {flag : Text} (h : table.isDetached flag = true) :
    classifyWith table isSource [flag] = ⟨[flag], []⟩ :=
  if_pos h

/-- Whether an argument that no flag waits for is an input. -/
def isInput (table : ValueFlags) (isSource : Text → Bool) (token : Text) : Bool :=
  !table.isDetached token && !Text.beginsWith token flagMark && isSource token

/-- An argument that is no detached flag is an input or stays with the flags. -/
theorem classifyWith_cons {token : Text} (h : table.isDetached token = false) (rest : List Text) :
    classifyWith table isSource (token :: rest) =
      if isInput table isSource token then (classifyWith table isSource rest).addInput token
      else (classifyWith table isSource rest).addFlag token := by
  have hnot : ¬table.isDetached token = true := by simp [h]
  have hstep : classifyWith table isSource (token :: rest) =
      if Text.beginsWith token flagMark then (classifyWith table isSource rest).addFlag token
      else if isSource token then (classifyWith table isSource rest).addInput token
      else (classifyWith table isSource rest).addFlag token := by
    cases rest with
    | nil => exact if_neg hnot
    | cons value rest => exact if_neg hnot
  rw [hstep, isInput, h]
  cases Text.beginsWith token flagMark <;> cases isSource token <;> rfl

theorem classifyWith_single (token : Text) :
    classifyWith table isSource [token] =
      if isInput table isSource token then ⟨[], [token]⟩ else ⟨[token], []⟩ := by
  cases h : table.isDetached token with
  | true => rw [classifyWith_last h, if_neg (by simp [isInput, h])]
  | false =>
    rw [classifyWith_cons h]
    rfl

/-- Two splits, one behind the other. -/
def Classified.append (c d : Classified) : Classified :=
  ⟨c.flags ++ d.flags, c.inputs ++ d.inputs⟩

/-- **What is written behind arguments is split for itself**, unless a flag waits for its first
token. -/
theorem classifyWith_append {arguments : List Text} (h : table.endsOpen arguments = false)
    (more : List Text) : classifyWith table isSource (arguments ++ more) =
      (classifyWith table isSource arguments).append (classifyWith table isSource more) := by
  induction arguments using table.arguments_induction with
  | nil => rfl
  | last flag hflag => exact absurd h (by simp [endsOpen_single, hflag])
  | pair flag value rest hflag ih =>
    rw [endsOpen_pair hflag] at h
    rw [List.cons_append, List.cons_append, classifyWith_pair hflag, classifyWith_pair hflag, ih h]
    rfl
  | alone token rest htoken ih =>
    rw [endsOpen_cons_of_not htoken] at h
    rw [List.cons_append, classifyWith_cons htoken, classifyWith_cons htoken, ih h]
    split <;> rfl

/-- The value that a flag waits for goes with the flags. -/
theorem classifyWith_append_open {arguments : List Text} (h : table.endsOpen arguments = true)
    (value : Text) (more : List Text) : classifyWith table isSource (arguments ++ value :: more) =
      (classifyWith table isSource arguments).append
        ((classifyWith table isSource more).addFlag value) := by
  induction arguments using table.arguments_induction with
  | nil => exact absurd h (by simp)
  | last flag hflag =>
    rw [List.singleton_append, classifyWith_pair hflag, classifyWith_last hflag]
    rfl
  | pair flag first rest hflag ih =>
    rw [endsOpen_pair hflag] at h
    rw [List.cons_append, List.cons_append, classifyWith_pair hflag, classifyWith_pair hflag, ih h]
    rfl
  | alone token rest htoken ih =>
    rw [endsOpen_cons_of_not htoken] at h
    rw [List.cons_append, classifyWith_cons htoken, classifyWith_cons htoken, ih h]
    split <;> rfl

/-! ## 3. The flags without the inputs -/

/-- Without the inputs, the same flag waits at the end. -/
theorem endsOpen_flags (arguments : List Text) :
    table.endsOpen (classifyWith table isSource arguments).flags = table.endsOpen arguments := by
  induction arguments using table.arguments_induction with
  | nil => rfl
  | last flag hflag => rw [classifyWith_last hflag]
  | pair flag value rest hflag ih =>
    rw [classifyWith_pair hflag, endsOpen_pair hflag]
    exact (endsOpen_pair hflag _ _).trans ih
  | alone token rest htoken ih =>
    rw [classifyWith_cons htoken, endsOpen_cons_of_not htoken]
    split
    · exact ih
    · exact (endsOpen_cons_of_not htoken _).trans ih

/-- **The flags alone hold no input**, and all of them are flags again. -/
theorem classifyWith_flags (arguments : List Text) :
    classifyWith table isSource (classifyWith table isSource arguments).flags =
      ⟨(classifyWith table isSource arguments).flags, []⟩ := by
  induction arguments using table.arguments_induction with
  | nil => rfl
  | last flag hflag => rw [classifyWith_last hflag, classifyWith_last hflag]
  | pair flag value rest hflag ih =>
    rw [classifyWith_pair hflag]
    simp only [Classified.addFlag, classifyWith_pair hflag, ih]
  | alone token rest htoken ih =>
    rw [classifyWith_cons htoken]
    split
    · exact ih
    · next hinput =>
      simp only [Classified.addFlag, classifyWith_cons htoken, if_neg hinput, ih]

/-- **One more argument behind the flags** is an input again if it is one by itself and no flag
waits for it. -/
theorem classifyWith_flags_append (arguments : List Text) (token : Text) :
    classifyWith table isSource ((classifyWith table isSource arguments).flags ++ [token]) =
      if table.endsOpen arguments = false ∧ isInput table isSource token = true then
        ⟨(classifyWith table isSource arguments).flags, [token]⟩
      else ⟨(classifyWith table isSource arguments).flags ++ [token], []⟩ := by
  cases hopen : table.endsOpen arguments with
  | true =>
    rw [classifyWith_append_open ((endsOpen_flags arguments).trans hopen), classifyWith_flags,
      if_neg (by simp)]
    rfl
  | false =>
    rw [classifyWith_append ((endsOpen_flags arguments).trans hopen), classifyWith_flags,
      classifyWith_single]
    cases isInput table isSource token
    · rw [if_neg (by simp), if_neg (by simp)]
      rfl
    · rw [if_pos rfl, if_pos ⟨rfl, rfl⟩]
      simp only [Classified.append, List.append_nil, List.nil_append]

end CompileJournal
