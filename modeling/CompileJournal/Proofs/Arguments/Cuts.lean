import CompileJournal.Proofs.Arguments.Positions

/-!
# Arguments cut in two

The arguments of a compiler come in pieces: the flags that were recorded, then more arguments, then
the file.  The reading keeps no state that could be looked at where one piece ends and the next one
begins, except that the last argument in front of the cut may be a flag that waits for its value.
That can be seen from the detached spellings at the end of the first piece, of which there is one for
each flag that waits and two for each one that has got its value, so an odd number is left waiting.

Where no flag waits, each piece is split for itself.  Where one does, the first token of the second
piece is its value, and what comes behind that is split for itself.  The condition is needed: once
there is a token that is an input by itself, it becomes a value behind any flag that waits.

* `endsOpen_iff_readings`: what is waited for at the end, as the reading has it;
* `composes_iff`: the pieces are split for themselves if and only if no flag waits;
* `classify_composes`: all of it, for the arguments of a compiler.
-/

namespace CompileJournal

variable {table : ValueFlags} {isSource : Text → Bool} {arguments : List Text}

/-! ## 1. The end of a piece -/

/-- **A flag waits at the end** if the last argument is read as a flag and its value may be the next
token.  A detached spelling that is itself the value of a flag waits for nothing. -/
theorem endsOpen_iff_readings : table.endsOpen arguments = true ↔
    ∃ flag, (readings table isSource arguments).getLast? = some (flag, .flag) ∧
      table.isDetached flag = true := by
  induction arguments using List.reverseRecOn with
  | nil => simp [ValueFlags.endsOpen, readings]
  | append_singleton front token =>
    have hlast : (readings table isSource (front ++ [token])).getLast? =
        some (token, Role.of table isSource (table.endsOpen front) token) := by
      rw [List.getLast?_eq_getElem?, ← List.length_map Prod.fst, map_fst_readings,
        getElem?_readings]
      simp
    rw [hlast, ValueFlags.endsOpen_concat, Bool.and_eq_true, Bool.not_eq_true']
    constructor
    · rintro ⟨hclosed, hdetached⟩
      exact ⟨token, by rw [hclosed, Role.of_detached hdetached], hdetached⟩
    · rintro ⟨flag, heq, hdetached⟩
      obtain ⟨rfl, hrole⟩ := Prod.mk.inj (Option.some.inj heq)
      refine ⟨?_, hdetached⟩
      cases hopen : table.endsOpen front with
      | false => rfl
      | true =>
        rw [hopen, Role.of_eq_value_iff.mpr rfl] at hrole
        exact absurd hrole (by simp)

/-! ## 2. Both pieces -/

/-- The value that is waited for stands between the two pieces, and goes with the flags. -/
theorem classifyWith_append_value (h : table.endsOpen arguments = true) (value : Text)
    (more : List Text) : classifyWith table isSource (arguments ++ value :: more) =
      ((classifyWith table isSource arguments).append ⟨[value], []⟩).append
        (classifyWith table isSource more) := by
  rw [classifyWith_append_open h]
  simp only [Classified.append, Classified.addFlag, List.append_assoc, List.singleton_append,
    List.nil_append]

/-- **Pieces are split for themselves, whatever the second one is, if and only if no flag waits**
at the end of the first one.  That needs a token that is an input by itself: where there is none,
everything is a flag, and every cut is alike. -/
theorem composes_iff {token : Text} (htoken : isInput table isSource token = true) :
    (∀ more, classifyWith table isSource (arguments ++ more) =
      (classifyWith table isSource arguments).append (classifyWith table isSource more)) ↔
    table.endsOpen arguments = false := by
  constructor
  · intro h
    by_contra hopen
    rw [Bool.not_eq_false] at hopen
    -- The token is one flag more in front of the cut, and one input more behind it.
    have hflags := congrArg (List.length ∘ Classified.flags) (h [token])
    rw [classifyWith_append_open hopen, classifyWith_single, if_pos htoken] at hflags
    simp [Classified.append, Classified.addFlag, classifyWith] at hflags
  · exact fun h more => classifyWith_append h more

/-! ## 3. The arguments of a compiler -/

/-- **Splitting is compositional exactly at complete pieces.**  A piece is complete if the detached
spellings at its end are even in number, which is if and only if its last argument is not read as a
flag that waits for a value.  Behind a complete piece, every other piece is split for itself.
Behind one that is not complete, the next token is a flag, whatever it is and whatever it leads to,
and all that comes after it is split for itself.  If some token is an input by itself, no piece but a
complete one has every other piece split for itself behind it. -/
theorem classify_composes (w : World) (table : ValueFlags) (workdir : Text)
    (arguments : List Text) :
    (Odd (table.trailing arguments) ↔
      ∃ flag, (readings table (w.isSource workdir) arguments).getLast? = some (flag, .flag) ∧
        table.isDetached flag = true) ∧
    (¬Odd (table.trailing arguments) → ∀ more, classify w table workdir (arguments ++ more) =
      (classify w table workdir arguments).append (classify w table workdir more)) ∧
    (Odd (table.trailing arguments) → ∀ value more,
      classify w table workdir (arguments ++ value :: more) =
        ((classify w table workdir arguments).append ⟨[value], []⟩).append
          (classify w table workdir more)) ∧
    ((∃ token, classify w table workdir [token] = ⟨[], [token]⟩) →
      (∀ more, classify w table workdir (arguments ++ more) =
        (classify w table workdir arguments).append (classify w table workdir more)) →
      ¬Odd (table.trailing arguments)) := by
  simp only [← ValueFlags.endsOpen_iff_odd, Bool.not_eq_true]
  refine ⟨endsOpen_iff_readings, classifyWith_append, classifyWith_append_value, ?_⟩
  rintro ⟨token, htoken⟩
  have hinput : isInput table (w.isSource workdir) token = true := by
    rw [classify, classifyWith_single] at htoken
    by_contra hinput
    rw [if_neg hinput] at htoken
    exact absurd htoken (by simp)
  exact (composes_iff hinput).mp

/-- Two detached spellings make a pair, behind which the file is an input.  Behind three it is the
value of the last one, and only the file that comes next is an input, so the two pieces are not
split each for itself. -/
theorem classify_composes_sourceWorld :
    ¬Odd (ValueFlags.trailing (.withExtra []) ["-o", "-I"]) ∧
    classify sourceWorld (.withExtra []) "/" ["-o", "-I", "main.c"] =
      ⟨["-o", "-I"], ["main.c"]⟩ ∧
    Odd (ValueFlags.trailing (.withExtra []) ["-o", "-I", "-o"]) ∧
    classify sourceWorld (.withExtra []) "/" ["-o", "-I", "-o", "main.c", "main.c"] =
      ⟨["-o", "-I", "-o", "main.c"], ["main.c"]⟩ ∧
    ¬∀ more, classify sourceWorld (.withExtra []) "/" (["-o".toList, "-I".toList, "-o"] ++ more) =
      (classify sourceWorld (.withExtra []) "/" ["-o", "-I", "-o"]).append
        (classify sourceWorld (.withExtra []) "/" more) := by
  have htwo : ValueFlags.trailing (.withExtra []) ["-o", "-I"] = 2 := by decide
  have hthree : ValueFlags.trailing (.withExtra []) ["-o", "-I", "-o"] = 3 := by decide
  have heven : ¬Odd (ValueFlags.trailing (.withExtra []) ["-o", "-I"]) := by
    rw [htwo]
    decide
  have hodd : Odd (ValueFlags.trailing (.withExtra []) ["-o", "-I", "-o"]) := by
    rw [hthree]
    decide
  obtain ⟨-, hcomplete, -, -⟩ := classify_composes sourceWorld (.withExtra []) "/" ["-o", "-I"]
  obtain ⟨-, -, hopen, hexact⟩ :=
    classify_composes sourceWorld (.withExtra []) "/" ["-o", "-I", "-o"]
  refine ⟨heven, ?_, hodd, ?_, ?_⟩
  · have hfile := hcomplete heven ["main.c"]
    exact hfile.trans (by decide)
  · have hfile := hopen hodd "main.c" ["main.c"]
    exact hfile.trans (by decide)
  · intro hall
    exact hexact ⟨"main.c", by decide⟩ hall hodd

end CompileJournal
