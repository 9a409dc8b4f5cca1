import CompileJournal.Proofs.Arguments.Positions

/-!
# Values that are attached to their flags

A flag that takes a value may have it in the same token, right behind the spelling.  Such a token is
meant to stay with the flags, whatever file has its name.  It is not recognised by the table of the
spellings, though: what keeps a token from being an input is the dash in front of it.  All standard
spellings start with a dash, so the two come to the same for them, and for every extra spelling that
starts with a dash.

An extra spelling without a dash is recognised only as a whole token, with its value in the next one.
With the value attached it is taken for an input as soon as a source file has that name.

* `mem_spellings_withExtra`, `head?_of_mem_standard`: the spellings of a table;
* `classifyWith_perm`: no argument is lost or doubled by the split;
* `attached_classified`: what becomes of a token with an attached value;
* `not_attached_stays`: a spelling without a dash.
-/

namespace CompileJournal

variable {table : ValueFlags} {isSource : Text → Bool} {extra : List Text} {token spelling : Text}

/-! ## 1. Spellings -/

namespace ValueFlags

/-- The spellings of a table. -/
def spellings (table : ValueFlags) : List Text := table.map Prod.fst

theorem mem_spellings_add {other : Text} :
    spelling ∈ (table.add other).spellings ↔ spelling = other ∨ spelling ∈ table.spellings := by
  simp only [spellings, add, List.map_cons, List.mem_cons, List.mem_map, List.mem_filter]
  constructor
  · rintro (heq | ⟨e, ⟨he, -⟩, rfl⟩)
    · exact .inl heq
    · exact .inr ⟨e, he, rfl⟩
  · rintro (heq | ⟨e, he, rfl⟩)
    · exact .inl heq
    · by_cases hother : e.1 = other
      · exact .inl hother
      · exact .inr ⟨e, ⟨he, by simpa using hother⟩, rfl⟩

/-- The spellings of an extended table are those of the standard table and the extra ones. -/
theorem mem_spellings_withExtra :
    spelling ∈ (withExtra extra).spellings ↔ spelling ∈ standard.spellings ∨ spelling ∈ extra := by
  have hfold : ∀ (extra : List Text) (table : ValueFlags),
      spelling ∈ (extra.foldl add table).spellings ↔
        spelling ∈ table.spellings ∨ spelling ∈ extra := by
    intro extra
    induction extra with
    | nil => simp
    | cons other extra ih =>
      intro table
      rw [List.foldl_cons, ih, mem_spellings_add, List.mem_cons]
      tauto
  exact hfold extra standard

/-- **All standard spellings start with a dash.** -/
theorem head?_of_mem_standard (h : spelling ∈ standard.spellings) : spelling.head? = some '-' := by
  have hall : ∀ s ∈ standard.spellings, s.head? = some '-' := by decide
  exact hall spelling h

end ValueFlags

/-- A text starts like a part that it begins with. -/
theorem Text.head?_of_beginsWith (h : Text.beginsWith token spelling = true)
    (hne : spelling ≠ []) : token.head? = spelling.head? := by
  obtain ⟨c, rest, rfl⟩ := List.exists_cons_of_ne_nil hne
  obtain ⟨value, rfl⟩ := List.isPrefixOf_iff_prefix.mp h
  rfl

/-! ## 2. Every occurrence -/

/-- **The two parts of the arguments hold every argument as often as it was given.** -/
theorem classifyWith_perm (arguments : List Text) :
    ((classifyWith table isSource arguments).flags ++
      (classifyWith table isSource arguments).inputs).Perm arguments := by
  have hparts := (List.filter_append_perm (fun e : Text × Role => decide (e.2 ≠ .input))
    (readings table isSource arguments)).map Prod.fst
  rw [map_fst_readings, List.map_append] at hparts
  rw [classifyWith_eq_readings, Classified.ofReadings]
  simpa using hparts

/-- A token that is not among the inputs stays with the flags wherever it stands. -/
theorem count_flags_of_not_mem {arguments : List Text}
    (h : token ∉ (classifyWith table isSource arguments).inputs) :
    (classifyWith table isSource arguments).flags.count token = arguments.count token := by
  have hperm : ((classifyWith table isSource arguments).flags ++
      (classifyWith table isSource arguments).inputs).Perm arguments := classifyWith_perm arguments
  have hcount := hperm.count_eq token
  rwa [List.count_append, List.count_eq_zero.mpr h, Nat.add_zero] at hcount

/-- The inputs are the arguments that are read as inputs at some position. -/
theorem mem_inputs_iff {arguments : List Text} :
    token ∈ (classifyWith table isSource arguments).inputs ↔
      ∃ k : Nat, (readings table isSource arguments)[k]? = some (token, .input) := by
  rw [classifyWith_eq_readings, Classified.ofReadings, ← List.mem_iff_getElem?]
  simp

/-! ## 3. Attached values -/

/-- **What becomes of a token that begins with a spelling of an extended table.**  It is an input
exactly where no flag waits for it, it is no detached spelling itself, it has an extension and leads
to a regular file, and the spelling does not start with a dash.  So behind a spelling that does, and
all standard ones do, an attached value is never taken for a source file: the token stays with the
flags as often as it was given. -/
theorem attached_classified (w : World) {extra : List Text} (hextra : ∀ s ∈ extra, s ≠ [])
    (workdir : Text) (arguments : List Text) {spelling token : Text}
    (hspelling : spelling ∈ (ValueFlags.withExtra extra).spellings)
    (hbegins : Text.beginsWith token spelling = true) :
    (spelling.head? = some '-' →
      token ∉ (classify w (.withExtra extra) workdir arguments).inputs ∧
      (classify w (.withExtra extra) workdir arguments).flags.count token =
        arguments.count token) ∧
    (spelling.head? ≠ some '-' → spelling ∈ extra ∧ ∀ {k role},
      (readings (.withExtra extra) (w.isSource workdir) arguments)[k]? = some (token, role) →
      (role = .input ↔ ¬Odd ((ValueFlags.withExtra extra).trailing (arguments.take k)) ∧
        token ∉ extra ∧ Path.hasExtension token = true ∧
        w.isFile (Path.join workdir token) = true)) ∧
    (spelling ∈ ValueFlags.standard.spellings → spelling.head? = some '-') := by
  rw [ValueFlags.mem_spellings_withExtra] at hspelling
  have hne : spelling ≠ [] := by
    rcases hspelling with hstandard | hmem
    · rintro rfl
      exact absurd (ValueFlags.head?_of_mem_standard hstandard) (by simp)
    · exact hextra spelling hmem
  have hhead : token.head? = spelling.head? := Text.head?_of_beginsWith hbegins hne
  -- Every position says what it takes its argument for.
  have hinput : ∀ {k role},
      (readings (.withExtra extra) (w.isSource workdir) arguments)[k]? = some (token, role) →
      (role = .input ↔ ¬Odd ((ValueFlags.withExtra extra).trailing (arguments.take k)) ∧
        isInput (.withExtra extra) (w.isSource workdir) token = true) := by
    intro k role hk
    rw [getElem?_readings] at hk
    obtain ⟨token', -, heq⟩ := Option.map_eq_some_iff.mp hk
    obtain ⟨rfl, rfl⟩ := Prod.mk.inj heq
    rw [Role.of_eq_input_iff, ← ValueFlags.endsOpen_iff_odd, Bool.not_eq_true]
  refine ⟨fun hdash => ?_, fun hplain => ?_, ValueFlags.head?_of_mem_standard⟩
  · have hnot : token ∉ (classify w (.withExtra extra) workdir arguments).inputs := by
      rw [classify, mem_inputs_iff]
      rintro ⟨k, hk⟩
      obtain ⟨-, hi⟩ := (hinput hk).mp rfl
      have hflag : Text.beginsWith token flagMark = false := by
        rw [isInput, Bool.and_eq_true, Bool.and_eq_true, Bool.not_eq_true', Bool.not_eq_true'] at hi
        exact hi.1.2
      exact (not_flag_iff token).mp hflag (hhead.trans hdash)
    exact ⟨hnot, count_flags_of_not_mem hnot⟩
  · refine ⟨hspelling.resolve_left fun h => hplain (ValueFlags.head?_of_mem_standard h), ?_⟩
    intro k role hk
    rw [hinput hk]
    refine and_congr_right fun _ => ?_
    have hdetached : (ValueFlags.withExtra extra).isDetached token = false ↔ token ∉ extra := by
      rw [← Bool.not_eq_true, ValueFlags.isDetached_withExtra, not_or]
      refine and_iff_right fun hmem => hplain ?_
      exact hhead ▸ ValueFlags.head?_of_mem_standard (List.mem_map_of_mem hmem)
    have hflag : Text.beginsWith token flagMark = false := (not_flag_iff token).mpr (hhead ▸ hplain)
    rw [isInput, World.isSource, hflag, Bool.and_eq_true, Bool.and_eq_true, Bool.and_eq_true,
      Bool.not_eq_true', hdetached, Bool.not_false, and_iff_left rfl]

/-- The root with files that are named like a flag with its value. -/
def attachedWorld : World :=
  World.written [(["-Ia.c"], .file 0), (["out=a.c"], .file 1)] [.text [], .text []]

/-- The value of a standard flag is no input, and the value of an extra one is none in the token
behind it. -/
theorem attached_classified_attachedWorld :
    "-Ia.c".toList ∉
      (classify attachedWorld (.withExtra ["out="]) "/" ["out=", "out=a.c", "-Ia.c"]).inputs ∧
    (readings (.withExtra ["out="]) (attachedWorld.isSource "/")
        ["out=", "out=a.c", "-Ia.c"])[1]? = some ("out=a.c".toList, .value) ∧
    Odd (ValueFlags.trailing (.withExtra ["out="]) ["out="]) := by
  have hextra : ∀ s ∈ (["out="] : List Text), s ≠ [] := by decide
  have hvalue : (readings (.withExtra ["out="]) (attachedWorld.isSource "/")
      ["out=", "out=a.c", "-Ia.c"])[1]? = some ("out=a.c".toList, .value) := by
    decide
  have hbegins : Text.beginsWith "-Ia.c" "-I" = true := by decide
  have hbegins' : Text.beginsWith "out=a.c" "out=" = true := by decide
  obtain ⟨hdash, -, -⟩ := attached_classified attachedWorld hextra "/"
    ["out=", "out=a.c", "-Ia.c"] (by decide) hbegins
  obtain ⟨-, hplain, -⟩ := attached_classified attachedWorld hextra "/"
    ["out=", "out=a.c", "-Ia.c"] (by decide) hbegins'
  refine ⟨(hdash (by decide)).1, hvalue, ?_⟩
  by_contra heven
  have hinput := ((hplain (by decide)).2 hvalue).mpr
    ⟨heven, by decide, by decide, by decide⟩
  exact absurd hinput (by decide)

/-- **Not every attached value stays with its flag.**  An extra spelling without a dash, with its
value right behind it, is an input if a source file has that name. -/
theorem not_attached_stays :
    ¬∀ (w : World) (extra : List Text) (workdir : Text) (arguments : List Text)
      (spelling token : Text), w.IsSound → (∀ s ∈ extra, s ≠ []) →
      spelling ∈ (ValueFlags.withExtra extra).spellings → Text.beginsWith token spelling = true →
      token ∉ (classify w (.withExtra extra) workdir arguments).inputs := by
  intro h
  have hsound : attachedWorld.IsSound :=
    ⟨Disk.isTree_of_entries (by decide) (by decide), by decide⟩
  exact h attachedWorld ["out="] "/" ["out=a.c"] "out=" "out=a.c" hsound (by decide)
    (by decide) (by decide) (by decide)

end CompileJournal
