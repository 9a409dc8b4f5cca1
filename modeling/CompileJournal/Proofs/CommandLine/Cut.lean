import CompileJournal.Proofs.CommandLine.Segments

/-!
# The cut between the flags and the compile command

`split` steps through a command line one or two tokens at a time.  Here what it takes away is told
without the scan: the flags are *units*, a flag in one of its spellings together with its value,
and the scan goes on as long as it meets units.  A unit is recognised by its own tokens, so what
comes after it plays no part.  That makes the cut stable: flags that were taken once are taken
again, and no token behind the place where the scan stopped can move that place.

* `extent?_eq_alone`, `extent?_eq_withNext`: the scan reads the spelling of a flag as it is told
  here, for tokens of either kind;
* `split_units`: units are taken, whatever comes after them;
* `exists_stop`: every command line is units up to one of four places where the scan stops;
* `split_stable`: what the cut is, and that it stays where it is.
-/

namespace CompileJournal

namespace Text

/-- A text goes together again from its parts. -/
theorem eq_of_cut {c : Char} {t before : Text} {after : Option Text}
    (h : cut c t = (before, after)) : t = before ++ after.elim [] (c :: ·) := by
  induction t generalizing before after with
  | nil => cases h; rfl
  | cons d rest ih =>
    unfold cut at h
    split at h
    · next heq => cases h; rw [heq]; rfl
    · cases h
      exact congrArg (d :: ·) (ih rfl)

/-- A text is cut at the first occurrence of the character. -/
theorem cut_append {c : Char} {before : Text} (h : c ∉ before) (after : Option Text) :
    cut c (before ++ after.elim [] (c :: ·)) = (before, after) := by
  induction before with
  | nil => cases after <;> simp [cut]
  | cons d before ih =>
    obtain ⟨hne, hrest⟩ : c ≠ d ∧ c ∉ before := by simpa using h
    rw [List.cons_append, cut, if_neg (Ne.symm hne)]
    simp only [ih hrest]

end Text

namespace Flag

/-- A spelling that is found is one of the table. -/
theorem mem_table_of_find {spelling : Text} {flag : Flag} (h : find? spelling = some flag) :
    (spelling, flag) ∈ table := by
  obtain ⟨before, after, heq, -⟩ := List.lookup_eq_some_iff.mp h
  rw [heq]
  simp

/-- No flag is spelled with the character that joins a value on. -/
theorem equals_not_mem {spelling : Text} {flag : Flag} (h : find? spelling = some flag) :
    '=' ∉ spelling := by
  have htable : ∀ e ∈ table, '=' ∉ e.1 := by decide
  exact htable _ (mem_table_of_find h)

/-- No flag is spelled like a switch that is turned off. -/
theorem find_no {spelling : Text} {flag : Flag} (h : find? spelling = some flag)
    (hswitch : flag.kind.isSwitch = true) : find? ('n' :: 'o' :: spelling) = none := by
  have htable : ∀ e ∈ table, e.2.kind.isSwitch = true → find? ('n' :: 'o' :: e.1) = none := by
    decide
  exact htable _ (mem_table_of_find h) hswitch

/-- The spellings that turn a switch off. -/
theorem findNegated_eq_some {spelling : Text} {flag : Flag} :
    findNegated? spelling = some flag ↔
      ∃ positive, spelling = 'n' :: 'o' :: positive ∧ find? positive = some flag ∧
        flag.kind.isSwitch = true := by
  constructor
  · intro h
    unfold findNegated? at h
    split at h
    · next hno =>
      obtain ⟨positive, rfl⟩ : ['n', 'o'] <+: spelling := List.isPrefixOf_iff_prefix.mp hno
      obtain ⟨hfind, hswitch⟩ := Option.filter_eq_some_iff.mp h
      exact ⟨positive, rfl, hfind, hswitch⟩
    · cases h
  · rintro ⟨positive, rfl, hfind, hswitch⟩
    rw [findNegated?, if_pos (by rfl)]
    exact Option.filter_eq_some_iff.mpr ⟨hfind, hswitch⟩

end Flag

namespace CommandLine

/-! ## 1. Units -/

/-- The token of a flag: two dashes, its spelling, and the value that is joined on with `=`. -/
def flagToken (spelling : Text) (joined : Option Text) : Text :=
  '-' :: '-' :: (spelling ++ joined.elim [] ('=' :: ·))

/-- The token of a setting without its value. -/
def LacksValue (token : Text) : Prop :=
  ∃ spelling flag, Flag.find? spelling = some flag ∧ flag.kind.isSwitch = false ∧
    token = flagToken spelling none

/-- The tokens of one flag, with its value. -/
inductive IsUnit : List Text → Prop
  | on {spelling : Text} {flag : Flag} (joined : Option Text)
      (h : Flag.find? spelling = some flag) (hswitch : flag.kind.isSwitch = true) :
      IsUnit [flagToken spelling joined]
  | off {spelling : Text} {flag : Flag} (joined : Option Text)
      (h : Flag.find? spelling = some flag) (hswitch : flag.kind.isSwitch = true) :
      IsUnit [flagToken ('n' :: 'o' :: spelling) joined]
  | joined {spelling : Text} {flag : Flag} (value : Text)
      (h : Flag.find? spelling = some flag) (hsetting : flag.kind.isSwitch = false) :
      IsUnit [flagToken spelling (some value)]
  /-- The value may be any token, a terminator or another flag too. -/
  | apart {token : Text} (h : LacksValue token) (value : Text) : IsUnit [token, value]

/-- Tokens that are units, one after the other. -/
inductive AreUnits : List Text → Prop
  | nil : AreUnits []
  | cons {unit rest : List Text} (h : IsUnit unit) (hrest : AreUnits rest) :
      AreUnits (unit ++ rest)

/-- Units up to a setting whose value is missing. -/
inductive EndsShort : List Text → Prop
  | intro {units : List Text} {token : Text} (h : AreUnits units) (hlast : LacksValue token) :
      EndsShort (units ++ [token])

/-- A token that a flag can start with. -/
def StartsUnit (token : Text) : Prop := ∃ rest, IsUnit (token :: rest)

/-! ## 2. The scan recognises units -/

/-- What the scan makes of the token of a flag. -/
theorem extent?_flagToken {spelling : Text} (h : '=' ∉ spelling) (joined : Option Text) :
    extent? (flagToken spelling joined) =
      match Flag.find? spelling with
      | some flag =>
        if joined = none ∧ !flag.kind.isSwitch then some .withNext else some .alone
      | none => (Flag.findNegated? spelling).map fun _ => .alone := by
  have hstart : Text.beginsWith (flagToken spelling joined) terminator = true := by
    simp [Text.beginsWith, flagToken, terminator]
  have hcut : Text.cut '=' ((flagToken spelling joined).drop 2) = (spelling, joined) :=
    Text.cut_append h joined
  unfold extent?
  rw [if_neg (by simp [hstart])]
  cases hfind : Flag.find? spelling with
  | none => simp only [hcut, hfind]
  | some flag => simp only [hcut, hfind]

/-- A token with an extent is that of a flag. -/
theorem eq_flagToken {token : Text} {x : Extent} (h : extent? token = some x) :
    token = flagToken (Text.cut '=' (token.drop 2)).1 (Text.cut '=' (token.drop 2)).2 := by
  have hstart : terminator <+: token := by
    unfold extent? at h
    split at h
    · exact absurd h (by simp)
    · next hb => simpa [Text.beginsWith] using hb
  obtain ⟨rest, rfl⟩ := hstart
  exact congrArg (terminator ++ ·) (Text.eq_of_cut rfl)

theorem extent?_eq_withNext {token : Text} :
    extent? token = some .withNext ↔ LacksValue token := by
  constructor
  · intro h
    have htoken := eq_flagToken h
    rcases extent_cases h with ⟨flag, hfind, hw⟩ | ⟨hx, -⟩
    · obtain ⟨hjoined, hsetting⟩ := hw.mp rfl
      exact ⟨_, flag, hfind, hsetting, hjoined ▸ htoken⟩
    · exact absurd hx (by simp)
  · rintro ⟨spelling, flag, hfind, hsetting, rfl⟩
    rw [extent?_flagToken (Flag.equals_not_mem hfind)]
    simp [hfind, hsetting]

/-- A unit is a token that the scan takes alone, or a setting with the next token. -/
theorem isUnit_cons {token : Text} {rest : List Text} (h : IsUnit (token :: rest)) :
    (extent? token = some .alone ∧ rest = []) ∨
      (extent? token = some .withNext ∧ ∃ value, rest = [value]) := by
  cases h with
  | on joined hfind hswitch =>
    left
    rw [extent?_flagToken (Flag.equals_not_mem hfind)]
    simp [hfind, hswitch]
  | off joined hfind hswitch =>
    left
    rw [extent?_flagToken (by simpa using Flag.equals_not_mem hfind),
      Flag.find_no hfind hswitch, Flag.findNegated_eq_some.mpr ⟨_, rfl, hfind, hswitch⟩]
    simp
  | joined value hfind hsetting =>
    left
    rw [extent?_flagToken (Flag.equals_not_mem hfind)]
    simp [hfind]
  | apart hlacks value => exact .inr ⟨extent?_eq_withNext.mpr hlacks, value, rfl⟩

theorem extent?_eq_alone {token : Text} : extent? token = some .alone ↔ IsUnit [token] := by
  constructor
  · intro h
    rw [eq_flagToken h]
    rcases extent_cases h with ⟨flag, hfind, hw⟩ | ⟨-, -, flag, hneg⟩
    · cases hswitch : flag.kind.isSwitch with
      | true => exact .on _ hfind hswitch
      | false =>
        cases hjoined : (Text.cut '=' (token.drop 2)).2 with
        | some value => exact .joined value hfind hswitch
        | none => exact absurd (hw.mpr ⟨hjoined, hswitch⟩) (by simp)
    · obtain ⟨positive, hspelling, hfind, hswitch⟩ := Flag.findNegated_eq_some.mp hneg
      rw [hspelling]
      exact .off _ hfind hswitch
  · intro h
    rcases isUnit_cons h with ⟨he, -⟩ | ⟨-, value, hrest⟩
    · exact he
    · cases hrest

/-- The scan goes on as long as a flag can start. -/
theorem extent?_eq_none {token : Text} : extent? token = none ↔ ¬StartsUnit token := by
  constructor
  · rintro h ⟨rest, hunit⟩
    rcases isUnit_cons hunit with ⟨he, -⟩ | ⟨he, -⟩ <;> simp [h] at he
  · intro h
    cases he : extent? token with
    | none => rfl
    | some x =>
      refine absurd ?_ h
      cases x with
      | alone => exact ⟨[], extent?_eq_alone.mp he⟩
      | withNext => exact ⟨[[]], .apart (extent?_eq_withNext.mp he) []⟩

/-! ## 3. The scan goes through units -/

/-- A unit is taken, whatever comes after it. -/
theorem split_unit {unit : List Text} (h : IsUnit unit) (rest : List Text) :
    split (unit ++ rest) = ⟨unit ++ (split rest).own, (split rest).command⟩ := by
  cases unit with
  | nil => cases h
  | cons token later =>
    rcases isUnit_cons h with ⟨he, rfl⟩ | ⟨he, value, rfl⟩
    · exact split_alone he rest
    · exact split_withNext he value rest

/-- **Units are taken, whatever comes after them.** -/
theorem split_units {units : List Text} (h : AreUnits units) (rest : List Text) :
    split (units ++ rest) = ⟨units ++ (split rest).own, (split rest).command⟩ := by
  induction h with
  | nil => rfl
  | @cons unit later hunit _ ih =>
    rw [List.append_assoc, split_unit hunit, ih, List.append_assoc]

/-- Where the scan stops. -/
inductive Stop : List Text → Prop
  /-- No token is left. -/
  | exhausted : Stop []
  | terminated (rest : List Text) : Stop (terminator :: rest)
  /-- The compile command starts without a terminator. -/
  | foreign {token : Text} (hne : token ≠ terminator) (h : ¬StartsUnit token)
      (rest : List Text) : Stop (token :: rest)
  /-- The command line ends where a value should be. -/
  | short {token : Text} (h : LacksValue token) : Stop [token]

/-- Every command line is units up to a place where the scan stops. -/
theorem exists_stop (arguments : List Text) :
    ∃ units rest, AreUnits units ∧ Stop rest ∧ arguments = units ++ rest := by
  induction arguments using extent_induction with
  | nil => exact ⟨[], [], .nil, .exhausted, rfl⟩
  | stop token rest he =>
    by_cases hterm : token = terminator
    · exact ⟨[], _, .nil, hterm ▸ .terminated rest, rfl⟩
    · exact ⟨[], _, .nil, .foreign hterm (extent?_eq_none.mp he) rest, rfl⟩
  | alone token rest he ih =>
    obtain ⟨units, left, hunits, hstop, rfl⟩ := ih
    exact ⟨[token] ++ units, left, .cons (extent?_eq_alone.mp he) hunits, hstop, rfl⟩
  | last token he => exact ⟨[], _, .nil, .short (extent?_eq_withNext.mp he), rfl⟩
  | withNext token value rest he ih =>
    obtain ⟨units, left, hunits, hstop, rfl⟩ := ih
    exact ⟨[token, value] ++ units, left, .cons (.apart (extent?_eq_withNext.mp he) value) hunits,
      hstop, rfl⟩

/-- A command line that is short of a value has no compile command. -/
theorem split_short {token : Text} (h : LacksValue token) : split [token] = ⟨[token], []⟩ :=
  split_last (extent?_eq_withNext.mpr h)

theorem split_foreign {token : Text} (hne : token ≠ terminator) (h : ¬StartsUnit token)
    (rest : List Text) : split (token :: rest) = ⟨[], token :: rest⟩ :=
  split_stop (extent?_eq_none.mpr h) hne rest

/-- A setting whose value is missing is no unit, so it is clear which of the two a command line
is. -/
theorem EndsShort.not_areUnits {tokens : List Text} (h : EndsShort tokens) : ¬AreUnits tokens := by
  intro hall
  obtain ⟨hunits, hlast⟩ := h
  -- A terminator behind the tokens would have to be dropped, and to be the value of the setting.
  have hdropped := split_units hall [terminator]
  rw [List.append_assoc, split_units hunits, List.cons_append, List.nil_append,
    split_withNext (extent?_eq_withNext.mpr hlast)] at hdropped
  simpa [Parts.addOwn] using congrArg (·.own.length) hdropped

/-! ## 4. The cut -/

/-- The flags are units, unless the command line ends where a value should be. -/
theorem own_units_or_short (arguments : List Text) :
    AreUnits (split arguments).own ∨
      EndsShort (split arguments).own ∧ (split arguments).command = [] ∧
        arguments = (split arguments).own := by
  obtain ⟨units, left, hunits, hstop, rfl⟩ := exists_stop arguments
  rw [split_units hunits]
  cases hstop with
  | exhausted => exact .inl (by simpa using hunits)
  | terminated rest => exact .inl (by simpa using hunits)
  | foreign hne h rest => exact .inl (by simpa [split_foreign hne h] using hunits)
  | short h =>
    rw [split_short h]
    exact .inr ⟨.intro hunits h, rfl, rfl⟩

/-- A compile command that no terminator was dropped before starts with a token that is none of
the flags. -/
theorem head_command {arguments : List Text}
    (h : arguments = (split arguments).own ++ (split arguments).command) {token : Text}
    (htoken : token ∈ (split arguments).command.head?) :
    token ≠ terminator ∧ ¬StartsUnit token := by
  obtain ⟨units, left, hunits, hstop, rfl⟩ := exists_stop arguments
  rw [split_units hunits] at h htoken
  cases hstop with
  | exhausted => simp at htoken
  | terminated rest => simpa using congrArg List.length h
  | foreign hne hstart rest =>
    rw [split_foreign hne hstart] at htoken
    cases htoken
    exact ⟨hne, hstart⟩
  | short hlacks => simp [split_short hlacks] at htoken

/-- Where the scan stopped before the end, it stops there whatever comes later. -/
theorem split_append {arguments : List Text}
    (h : arguments = (split arguments).own ++ terminator :: (split arguments).command ∨
      (split arguments).command ≠ []) (more : List Text) :
    split (arguments ++ more) = ⟨(split arguments).own, (split arguments).command ++ more⟩ := by
  obtain ⟨units, left, hunits, hstop, rfl⟩ := exists_stop arguments
  rw [split_units hunits] at h ⊢
  rw [List.append_assoc, split_units hunits]
  cases hstop with
  | exhausted => simp at h
  | terminated rest => simp
  | foreign hne hstart rest => simp [split_foreign hne hstart]
  | short hlacks => simp [split_short hlacks] at h

/-- **The cut is stable.**  Nothing is lost of a command line but a terminator between its two
parts.  The flags are units, or units up to a setting whose value is missing; the latter are the
whole command line.  Where no terminator was dropped, the compile command does not start with a
token that the flags could have gone on with.  Units with a terminator behind them are cut there
again, whatever follows.  Once the scan has stopped at a terminator or at a token of the compile
command, further tokens only make the compile command longer. -/
theorem split_stable (arguments : List Text) :
    (arguments = (split arguments).own ++ (split arguments).command ∨
      arguments = (split arguments).own ++ terminator :: (split arguments).command) ∧
    (AreUnits (split arguments).own ∨ EndsShort (split arguments).own) ∧
    (EndsShort (split arguments).own →
      ¬AreUnits (split arguments).own ∧ (split arguments).command = [] ∧
        arguments = (split arguments).own) ∧
    (arguments = (split arguments).own ++ (split arguments).command →
      ∀ token ∈ (split arguments).command.head?, token ≠ terminator ∧ ¬StartsUnit token) ∧
    (AreUnits (split arguments).own → ∀ rest,
      split ((split arguments).own ++ terminator :: rest) = ⟨(split arguments).own, rest⟩) ∧
    (arguments = (split arguments).own ++ terminator :: (split arguments).command ∨
        (split arguments).command ≠ [] →
      ∀ more, split (arguments ++ more)
        = ⟨(split arguments).own, (split arguments).command ++ more⟩) := by
  have hown := own_units_or_short arguments
  refine ⟨split_eq arguments, hown.imp_right And.left, fun hshort => ?_,
    fun h token htoken => head_command h htoken, fun h rest => ?_, split_append⟩
  · exact ⟨hshort.not_areUnits, hown.resolve_left hshort.not_areUnits |>.2⟩
  · rw [split_units h, split_terminator, List.append_nil]

/-- The value of a setting may look like a terminator. -/
example : split ["--driver".toList, "--".toList, "--noverbose=x".toList, "--param".toList]
    = ⟨["--driver".toList, "--".toList, "--noverbose=x".toList], ["--param".toList]⟩ := by
  decide

end CommandLine

end CompileJournal
