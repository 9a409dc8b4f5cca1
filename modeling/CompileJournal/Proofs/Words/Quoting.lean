import CompileJournal.Proofs.Words.RoundTrip
import Mathlib.Data.List.Forall2

/-!
# What a shell makes of written words

A shell that gets a written line does more with it than to cut it into words: outside quotes, and
between double quotes, characters such as `$` and `*` make it expand, substitute or redirect.  That
the words are read back says nothing about this.

What does is the quoting: in which quotes a character stands is known from those in front of it.  A
written line consists of safe characters, of spaces, of runs between single quotes and of single
quotes between double ones, and each of these pieces leaves the shell outside quotes again.

* `Quoting`: where a shell stands in a line;
* `InPieces`: lines that consist of such pieces, `InPieces.stands` what can stand where in them;
* `encode_inPieces`: written lines;
* `space_iff`: the spaces between the words;
* `isInert_encode`: nothing is left bare.
-/

namespace CompileJournal.Words

/-! ## 1. The quoting of a shell -/

/-- Where a shell stands in a line. -/
inductive Quoting where
  | outside
  /-- Right behind a backslash outside quotes. -/
  | escaped
  | single
  | double
  /-- Right behind a backslash between double quotes. -/
  | doubleEscaped
  deriving DecidableEq, Repr

namespace Quoting

/-- One character on. -/
def next : Quoting → Char → Quoting
  | outside, c =>
    if c = '\\' then escaped else if c = '\'' then single else if c = '"' then double else outside
  | escaped, _ => outside
  | single, c => if c = '\'' then outside else single
  | double, c => if c = '"' then outside else if c = '\\' then doubleEscaped else double
  | doubleEscaped, _ => double

/-- Where the shell stands behind a text. -/
def behind (q : Quoting) (text : Text) : Quoting := text.foldl next q

@[simp] theorem behind_nil (q : Quoting) : q.behind [] = q := rfl

@[simp] theorem behind_cons (q : Quoting) (c : Char) (text : Text) :
    q.behind (c :: text) = (q.next c).behind text := rfl

@[simp] theorem behind_append (q : Quoting) (text more : Text) :
    q.behind (text ++ more) = (q.behind text).behind more :=
  List.foldl_append

theorem outside_next_single : outside.next '\'' = single := rfl

/-- The characters that mean something to the shell where they stand: they begin an expansion, a
substitution, a pattern, a history reference, a redirection, a comment or a group, or they end a
command. -/
def isActive : Quoting → Char → Bool
  | outside, c => c ∈ "$`~*?[]\x7b\x7d!^<>|&;()#\\\n".toList
  | double, c => c ∈ "$`!\\".toList
  | _, _ => false

end Quoting

/-! ## 2. Lines in pieces -/

/-- Lines that consist of characters allowed outside quotes, of runs between single quotes, and of
single quotes between double ones. -/
inductive InPieces (allowed : Char → Prop) : Text → Prop
  | nil : InPieces allowed []
  | bare {c : Char} {rest : Text} (hc : allowed c) (h : InPieces allowed rest) :
      InPieces allowed (c :: rest)
  | single {inside rest : Text} (hinside : '\'' ∉ inside) (h : InPieces allowed rest) :
      InPieces allowed ('\'' :: inside ++ '\'' :: rest)
  | double {rest : Text} (h : InPieces allowed rest) :
      InPieces allowed ('"' :: '\'' :: '"' :: rest)

variable {allowed : Char → Prop} {text more : Text}

theorem InPieces.append (h : InPieces allowed text) (hmore : InPieces allowed more) :
    InPieces allowed (text ++ more) := by
  induction h with
  | nil => exact hmore
  | bare hc _ ih => exact .bare hc ih
  | single hinside _ ih =>
    rw [List.append_assoc, List.cons_append]
    exact .single hinside ih
  | double _ ih => exact .double ih

theorem InPieces.mono {wider : Char → Prop} (hwider : ∀ c, allowed c → wider c)
    (h : InPieces allowed text) : InPieces wider text := by
  induction h with
  | nil => exact .nil
  | bare hc _ ih => exact .bare (hwider _ hc) ih
  | single hinside _ ih => exact .single hinside ih
  | double _ ih => exact .double ih

/-- Between single quotes all characters but the single quote leave the shell where it is. -/
theorem behind_single {inside : Text} (h : '\'' ∉ inside) :
    Quoting.single.behind inside = .single := by
  induction inside with
  | nil => rfl
  | cons c inside ih =>
    rw [List.mem_cons, not_or] at h
    rw [Quoting.behind_cons, Quoting.next, if_neg (Ne.symm h.1), ih h.2]

/-- Characters that have no meaning for the quoting. -/
def LeavesOutside (allowed : Char → Prop) : Prop :=
  ∀ c, allowed c → Quoting.outside.next c = .outside

theorem InPieces.closed (hout : LeavesOutside allowed) (h : InPieces allowed text) :
    Quoting.outside.behind text = .outside := by
  induction h with
  | nil => rfl
  | bare hc _ ih =>
    rw [Quoting.behind_cons, hout _ hc]
    exact ih
  | single hinside _ ih =>
    rw [List.cons_append, Quoting.behind_cons, Quoting.behind_append]
    rw [Quoting.outside_next_single, behind_single hinside]
    exact ih
  | double _ ih => exact ih

/-- What can stand at a place of a line in pieces, with the rest of the line behind it. -/
def Stands (allowed : Char → Prop) : Quoting → Char → Text → Prop
  | .outside, c, after =>
    allowed c ∨ c = '\'' ∨ c = '"' ∧ ∃ rest, after = '\'' :: '"' :: rest
  | .single, _, _ => True
  | .double, c, _ => c = '\'' ∨ c = '"'
  | .escaped, _, _ => False
  | .doubleEscaped, _, _ => False

/-- **What stands where in a line in pieces**: the allowed characters outside quotes, anything
between single quotes, and only a single quote between double ones. -/
theorem InPieces.stands (hout : LeavesOutside allowed) (h : InPieces allowed text)
    {before after : Text} {c : Char} (hsplit : text = before ++ c :: after) :
    Stands allowed (Quoting.outside.behind before) c after := by
  induction h generalizing before with
  | nil => exact absurd hsplit (by simp)
  | @bare d rest hd _ ih =>
    cases before with
    | nil =>
      obtain ⟨rfl, -⟩ := List.cons.inj hsplit
      exact .inl hd
    | cons e before =>
      obtain ⟨rfl, hrest⟩ := List.cons.inj hsplit
      rw [Quoting.behind_cons, hout _ hd]
      exact ih hrest
  | @single inside rest hinside _ ih =>
    cases before with
    | nil =>
      obtain ⟨rfl, -⟩ := List.cons.inj hsplit
      exact .inr (.inl rfl)
    | cons e before =>
      obtain ⟨rfl, hrest⟩ := List.cons.inj hsplit
      rw [Quoting.behind_cons, Quoting.outside_next_single]
      -- The place is inside the quotes, at the closing one, or behind them.
      rcases List.append_eq_append_iff.mp hrest with ⟨more, rfl, hmore⟩ | ⟨more, rfl, -⟩
      · rw [Quoting.behind_append, behind_single hinside]
        cases more with
        | nil => exact trivial
        | cons f more =>
          obtain ⟨rfl, hbehind⟩ := List.cons.inj hmore
          exact ih hbehind
      · have hbefore : '\'' ∉ before := fun hmem => hinside (List.mem_append_left _ hmem)
        rw [behind_single hbefore]
        exact trivial
  | @double rest _ ih =>
    match before, hsplit with
    | [], hsplit =>
      obtain ⟨rfl, rfl⟩ := List.cons.inj hsplit
      exact .inr (.inr ⟨rfl, rest, rfl⟩)
    | [_], hsplit =>
      obtain ⟨rfl, hrest⟩ := List.cons.inj hsplit
      exact .inl (List.cons.inj hrest).1.symm
    | [_, _], hsplit =>
      obtain ⟨rfl, hrest⟩ := List.cons.inj hsplit
      obtain ⟨rfl, hlast⟩ := List.cons.inj hrest
      exact .inr (List.cons.inj hlast).1.symm
    | _ :: _ :: _ :: before, hsplit =>
      obtain ⟨rfl, hrest⟩ := List.cons.inj hsplit
      obtain ⟨rfl, hlast⟩ := List.cons.inj hrest
      obtain ⟨rfl, hbehind⟩ := List.cons.inj hlast
      -- The three quotes leave the shell outside, so `before` is read from there.
      show Stands allowed (Quoting.outside.behind before) c after
      exact ih hbehind

theorem InPieces.stands_outside (hout : LeavesOutside allowed) (h : InPieces allowed text)
    {before after : Text} {c : Char} (hsplit : text = before ++ c :: after)
    (hbefore : Quoting.outside.behind before = .outside) :
    allowed c ∨ c = '\'' ∨ c = '"' ∧ ∃ rest, after = '\'' :: '"' :: rest := by
  have hstands := h.stands hout hsplit
  rw [hbefore] at hstands
  exact hstands

/-! ## 3. A written token -/

theorem leavesOutside_isSafe : LeavesOutside (isSafe · = true) := by
  intro c hc
  obtain ⟨-, hbackslash, hsingle, hdouble⟩ := plain_of_isSafe hc
  rw [Quoting.next, if_neg hbackslash, if_neg hsingle, if_neg hdouble]

theorem InPieces.of_forall (h : ∀ c ∈ text, allowed c) : InPieces allowed text := by
  induction text with
  | nil => exact .nil
  | cons c text ih =>
    rw [List.forall_mem_cons] at h
    exact .bare h.1 (ih h.2)

/-- A token between quotes.  A single quote in it ends the piece that has been begun, and the next
piece is begun behind it. -/
theorem inPieces_quoted (token : Text) {inside : Text} (hinside : '\'' ∉ inside) :
    InPieces allowed ('\'' :: inside ++ (token.flatMap encodeChar ++ ['\''])) := by
  induction token generalizing inside with
  | nil => exact .single hinside .nil
  | cons c token ih =>
    rw [List.flatMap_cons, List.append_assoc]
    by_cases hc : c = '\''
    · rw [encodeChar, if_pos hc]
      exact .single hinside (.double (ih List.not_mem_nil))
    · have hlonger : '\'' ∉ inside ++ [c] := by
        rw [List.mem_append, List.mem_singleton]
        exact not_or.mpr ⟨hinside, Ne.symm hc⟩
      have hpieces := ih hlonger
      rw [encodeChar, if_neg hc]
      rwa [List.cons_append, List.append_assoc] at hpieces

theorem isBare_iff (token : Text) :
    isBare token = true ↔ token ≠ [] ∧ ∀ c ∈ token, isSafe c = true := by
  rw [isBare, Bool.and_eq_true, Bool.not_eq_true', List.all_eq_true, List.isEmpty_eq_false_iff]

theorem encodeWord_of_isBare {token : Text} (h : isBare token = true) : encodeWord token = token :=
  if_pos h

theorem encodeWord_of_not_isBare {token : Text} (h : ¬isBare token = true) :
    encodeWord token = '\'' :: token.flatMap encodeChar ++ ['\''] :=
  if_neg h

theorem encodeWord_inPieces (token : Text) : InPieces (isSafe · = true) (encodeWord token) := by
  by_cases h : isBare token = true
  · rw [encodeWord_of_isBare h]
    exact .of_forall ((isBare_iff token).mp h).2
  · rw [encodeWord_of_not_isBare h]
    exact inPieces_quoted token List.not_mem_nil

theorem encodeWord_ne_nil (token : Text) : encodeWord token ≠ [] := by
  by_cases h : isBare token = true
  · rw [encodeWord_of_isBare h]
    exact ((isBare_iff token).mp h).1
  · rw [encodeWord_of_not_isBare h]
    exact List.cons_ne_nil _ _

/-- Quotes are written around a token, and never inside it only. -/
theorem encodeWord_unquoted_iff (token : Text) :
    '\'' ∉ encodeWord token ∧ '"' ∉ encodeWord token ∧ '\\' ∉ encodeWord token ↔
      isBare token = true := by
  constructor
  · rintro ⟨hquote, -⟩
    by_contra h
    rw [encodeWord_of_not_isBare h] at hquote
    exact hquote List.mem_cons_self
  · intro h
    rw [encodeWord_of_isBare h]
    have hplain : ∀ c ∈ token, c ≠ '\\' ∧ c ≠ '\'' ∧ c ≠ '"' := by
      intro c hc
      exact (plain_of_isSafe (((isBare_iff token).mp h).2 c hc)).2
    refine ⟨?_, ?_, ?_⟩
    · intro hmem
      exact (hplain _ hmem).2.1 rfl
    · intro hmem
      exact (hplain _ hmem).2.2 rfl
    · intro hmem
      exact (hplain _ hmem).1 rfl

/-- A token between quotes is longer than the token. -/
theorem length_le_flatMap_encodeChar (token : Text) :
    token.length ≤ (token.flatMap encodeChar).length := by
  induction token with
  | nil => exact Nat.le_refl _
  | cons c token ih =>
    have hc : 1 ≤ (encodeChar c).length := by
      unfold encodeChar
      split <;> simp
    rw [List.flatMap_cons, List.length_append, List.length_cons]
    omega

theorem encodeWord_eq_iff (token : Text) : encodeWord token = token ↔ isBare token = true := by
  constructor
  · intro hsame
    by_contra h
    have hlength := congrArg List.length ((encodeWord_of_not_isBare h).symm.trans hsame)
    have hle := length_le_flatMap_encodeChar token
    rw [List.length_append, List.length_cons, List.length_singleton] at hlength
    omega
  · exact encodeWord_of_isBare

theorem encodeWord_noSpace {token before after : Text}
    (h : encodeWord token = before ++ ' ' :: after) : Quoting.outside.behind before ≠ .outside := by
  intro hout
  rcases (encodeWord_inPieces token).stands_outside leavesOutside_isSafe h hout with
    hsafe | hquote | ⟨hquote, -⟩
  · exact absurd hsafe (by decide)
  · exact absurd hquote (by decide)
  · exact absurd hquote (by decide)

/-- How a token stands in a line: as a word that is read back as the token, is not empty, ends
outside quotes and has no space outside quotes.  The word is without quotes if and only if the
token is not empty and made of safe characters only, and then alone it is the token itself. -/
structure StandsFor (word token : Text) : Prop where
  read : decode word = .ok [token]
  ne_nil : word ≠ []
  closed : Quoting.outside.behind word = .outside
  noSpace : ∀ {before after}, word = before ++ ' ' :: after →
    Quoting.outside.behind before ≠ .outside
  bare : '\'' ∉ word ∧ '"' ∉ word ∧ '\\' ∉ word ↔ token ≠ [] ∧ ∀ c ∈ token, isSafe c = true
  same : word = token ↔ token ≠ [] ∧ ∀ c ∈ token, isSafe c = true

theorem encodeWord_standsFor (token : Text) : StandsFor (encodeWord token) token where
  read := by
    rw [← encode_singleton]
    exact decode_encode [token]
  ne_nil := encodeWord_ne_nil token
  closed := (encodeWord_inPieces token).closed leavesOutside_isSafe
  noSpace := encodeWord_noSpace
  bare := (encodeWord_unquoted_iff token).trans (isBare_iff token)
  same := (encodeWord_eq_iff token).trans (isBare_iff token)

/-! ## 4. A written line -/

/-- What stands outside quotes in a written line, but for the quotes themselves. -/
def IsSafeOrSpace (c : Char) : Prop := isSafe c = true ∨ c = ' '

theorem leavesOutside_isSafeOrSpace : LeavesOutside IsSafeOrSpace := by
  rintro c (hc | rfl)
  · exact leavesOutside_isSafe c hc
  · rfl

theorem encode_append {first second : List Text} (hfirst : first ≠ []) (hsecond : second ≠ []) :
    encode (first ++ second) = encode first ++ ' ' :: encode second := by
  induction first with
  | nil => exact absurd rfl hfirst
  | cons token first ih =>
    cases first with
    | nil =>
      obtain ⟨next, second, rfl⟩ := List.exists_cons_of_ne_nil hsecond
      rw [List.singleton_append, encode_cons_cons, encode_singleton]
    | cons next first =>
      rw [List.cons_append, List.cons_append, encode_cons_cons, ← List.cons_append,
        ih (List.cons_ne_nil _ _), encode_cons_cons, List.append_assoc, List.cons_append]

theorem encode_inPieces (tokens : List Text) : InPieces IsSafeOrSpace (encode tokens) := by
  induction tokens with
  | nil => exact .nil
  | cons token tokens ih =>
    have hword : InPieces IsSafeOrSpace (encodeWord token) :=
      (encodeWord_inPieces token).mono fun _ => .inl
    cases tokens with
    | nil =>
      rw [encode_singleton]
      exact hword
    | cons next tokens =>
      rw [encode_cons_cons]
      exact hword.append (.bare (.inr rfl) ih)

/-- **The spaces outside quotes** are those between the words of two neighbours, and each of these
stands there once. -/
theorem space_iff (tokens : List Text) (before after : Text) :
    encode tokens = before ++ ' ' :: after ∧ Quoting.outside.behind before = .outside ↔
      ∃ first second, first ≠ [] ∧ second ≠ [] ∧ tokens = first ++ second ∧
        before = encode first ∧ after = encode second := by
  constructor
  · rintro ⟨hline, hout⟩
    induction tokens generalizing before with
    | nil => exact absurd hline (by simp [encode, Text.joinWith])
    | cons token tokens ih =>
      cases tokens with
      | nil =>
        rw [encode_singleton] at hline
        exact absurd hout (encodeWord_noSpace hline)
      | cons next tokens =>
        rw [encode_cons_cons] at hline
        -- The space is the one behind the first word, or it stands behind that one or in the word.
        rcases List.append_eq_append_iff.mp hline with ⟨more, rfl, hmore⟩ | ⟨more, hword, hmore⟩
        · cases more with
          | nil =>
            refine ⟨[token], next :: tokens, List.cons_ne_nil _ _, List.cons_ne_nil _ _, rfl, ?_,
              (List.cons.inj hmore).2.symm⟩
            rw [List.append_nil, encode_singleton]
          | cons c more =>
            obtain ⟨rfl, hrest⟩ := List.cons.inj hmore
            rw [Quoting.behind_append, (encodeWord_standsFor token).closed] at hout
            obtain ⟨first, second, hfirst, hsecond, htokens, rfl, hafter⟩ := ih more hrest hout
            refine ⟨token :: first, second, List.cons_ne_nil _ _, hsecond, ?_, ?_, hafter⟩
            · rw [htokens, List.cons_append]
            · have hline := encode_append (List.cons_ne_nil token []) hfirst
              rw [encode_singleton, List.singleton_append] at hline
              exact hline.symm
        · cases more with
          | nil =>
            rw [List.append_nil] at hword
            refine ⟨[token], next :: tokens, List.cons_ne_nil _ _, List.cons_ne_nil _ _, rfl, ?_,
              (List.cons.inj hmore).2⟩
            rw [encode_singleton, hword]
          | cons c more =>
            obtain ⟨rfl, -⟩ := List.cons.inj hmore
            exact absurd hout (encodeWord_noSpace hword)
  · rintro ⟨first, second, hfirst, hsecond, rfl, rfl, rfl⟩
    exact ⟨encode_append hfirst hsecond,
      (encode_inPieces first).closed leavesOutside_isSafeOrSpace⟩

/-- No character that needs no quotes means anything to a shell. -/
theorem isActive_of_isSafe {c : Char} (h : isSafe c = true) :
    Quoting.outside.isActive c = false := by
  have hactive : ("$`~*?[]\x7b\x7d!^<>|&;()#\\\n".toList.all fun c => !isSafe c) = true := by
    decide
  rw [Quoting.isActive, decide_eq_false_iff_not]
  intro hmem
  have hunsafe := List.all_eq_true.mp hactive c hmem
  rw [h] at hunsafe
  exact absurd hunsafe (by decide)

/-- **A line in which nothing of the tokens is left bare.**  A shell reads it to an end outside
quotes; what it meets outside quotes are safe characters, spaces and the quotes themselves; what it
meets between double quotes is one single quote and no more.  The line has one word for each token,
and the spaces outside quotes are those between two words.  No character means anything to the
shell where it stands. -/
structure IsInert (tokens : List Text) (line : Text) : Prop where
  closed : Quoting.outside.behind line = .outside
  outside : ∀ {before c after}, line = before ++ c :: after →
    Quoting.outside.behind before = .outside → isSafe c = true ∨ c = ' ' ∨ c = '\'' ∨ c = '"'
  double : ∀ {before after}, line = before ++ '"' :: after →
    Quoting.outside.behind before = .outside → ∃ rest, after = '\'' :: '"' :: rest
  words : ∃ words, line = Text.joinWith [' '] words ∧ List.Forall₂ StandsFor words tokens ∧
    ∀ before after,
      line = before ++ ' ' :: after ∧ Quoting.outside.behind before = .outside ↔
        ∃ first second, first ≠ [] ∧ second ≠ [] ∧ words = first ++ second ∧
          before = Text.joinWith [' '] first ∧ after = Text.joinWith [' '] second
  inert : ∀ {before c after}, line = before ++ c :: after →
    (Quoting.outside.behind before).isActive c = false

/-- **Nothing is left bare in a written line.** -/
theorem isInert_encode (tokens : List Text) : IsInert tokens (encode tokens) where
  closed := (encode_inPieces tokens).closed leavesOutside_isSafeOrSpace
  outside := by
    intro before c after hline hout
    rcases (encode_inPieces tokens).stands_outside leavesOutside_isSafeOrSpace hline hout with
      (hsafe | hspace) | hquote | ⟨hquote, -⟩
    · exact .inl hsafe
    · exact .inr (.inl hspace)
    · exact .inr (.inr (.inl hquote))
    · exact .inr (.inr (.inr hquote))
  double := by
    intro before after hline hout
    rcases (encode_inPieces tokens).stands_outside leavesOutside_isSafeOrSpace hline hout with
      (hsafe | hspace) | hquote | ⟨-, hrest⟩
    · exact absurd hsafe (by decide)
    · exact absurd hspace (by decide)
    · exact absurd hquote (by decide)
    · exact hrest
  words := by
    refine ⟨tokens.map encodeWord, rfl, ?_, ?_⟩
    · rw [List.forall₂_map_left_iff]
      exact List.forall₂_same.mpr fun token _ => encodeWord_standsFor token
    · intro before after
      rw [space_iff]
      constructor
      · rintro ⟨first, second, hfirst, hsecond, rfl, rfl, rfl⟩
        refine ⟨first.map encodeWord, second.map encodeWord, ?_, ?_, List.map_append, rfl, rfl⟩
        · exact fun h => hfirst (List.map_eq_nil_iff.mp h)
        · exact fun h => hsecond (List.map_eq_nil_iff.mp h)
      · rintro ⟨_, _, hfirst, hsecond, hwords, rfl, rfl⟩
        obtain ⟨first, second, rfl, rfl, rfl⟩ := List.map_eq_append_iff.mp hwords
        refine ⟨first, second, ?_, ?_, rfl, rfl, rfl⟩
        · rintro rfl
          exact hfirst rfl
        · rintro rfl
          exact hsecond rfl
  inert := by
    intro before c after hline
    have hstands := (encode_inPieces tokens).stands leavesOutside_isSafeOrSpace hline
    cases hquoting : Quoting.outside.behind before with
    | outside =>
      rw [hquoting] at hstands
      rcases hstands with (hsafe | rfl) | rfl | ⟨rfl, -⟩
      · exact isActive_of_isSafe hsafe
      all_goals decide
    | double =>
      rw [hquoting] at hstands
      rcases hstands with rfl | rfl <;> decide
    | single => rfl
    | escaped => rfl
    | doubleEscaped => rfl

end CompileJournal.Words
