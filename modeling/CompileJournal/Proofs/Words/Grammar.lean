import CompileJournal.Proofs.Words.RoundTrip

/-!
# The grammar of shell words

What the reader does with one character depends on all that it has read of the word so far, but the
lines that it accepts are easily said: words with blanks between them, each made of plain
characters, escaped characters and quotations.  This is the grammar below, and the reader is right
about it in both ways.

For one direction, a word of the grammar takes the reader through it, whatever comes behind.  For
the other, each position of the reader tells what has been read of the word: `Reached` is this
invariant, one character keeps it, and where the line ends it says which kind of line it was.  There
are three kinds, as many as the reader has answers, and that makes each direction an equivalence.

* `IsSegment`, `IsWord`, `IsLine`: the grammar, with the values of its words;
* `EndsAfterBackslash`, `EndsInQuotation`: the lines that are cut off;
* `IsLine.scan_append`: what the reader makes of a line of the grammar;
* `Reached.step`, `Reached.outcome`: the invariant, for one character and for the rest of the line;
* `decode_grammar`: all answers of the reader.
-/

namespace CompileJournal.Words

/-! ## 1. The grammar -/

/-- The inside of a double quotation, with its value. -/
inductive IsInside : Text → Text → Prop
  | nil : IsInside [] []
  | plain {c : Char} {rest value : Text} (hquote : c ≠ '"') (hbackslash : c ≠ '\\')
      (h : IsInside rest value) : IsInside (c :: rest) (c :: value)
  /-- A backslash that takes the meaning away from the character behind it. -/
  | escaped {c : Char} {rest value : Text} (hc : c = '"' ∨ c = '\\') (h : IsInside rest value) :
      IsInside ('\\' :: c :: rest) (c :: value)
  /-- A backslash that stands for itself. -/
  | pair {c : Char} {rest value : Text} (hc : ¬(c = '"' ∨ c = '\\')) (h : IsInside rest value) :
      IsInside ('\\' :: c :: rest) ('\\' :: c :: value)

/-- A piece of a word, with its value. -/
inductive IsSegment : Text → Text → Prop
  | plain {c : Char} (hblank : isBlank c = false) (hbackslash : c ≠ '\\') (hsingle : c ≠ '\'')
      (hdouble : c ≠ '"') : IsSegment [c] [c]
  | escaped (c : Char) : IsSegment ['\\', c] [c]
  | single {inside : Text} (h : '\'' ∉ inside) : IsSegment ('\'' :: inside ++ ['\'']) inside
  | double {inside value : Text} (h : IsInside inside value) :
      IsSegment ('"' :: inside ++ ['"']) value

/-- Pieces one behind the other, with the value of them all. -/
inductive AreSegments : Text → Text → Prop
  | nil : AreSegments [] []
  | cons {text value rest more : Text} (hsegment : IsSegment text value)
      (hrest : AreSegments rest more) : AreSegments (text ++ rest) (value ++ more)

/-- A word with its value.  Its text is not empty, but the value may be. -/
structure IsWord (text value : Text) : Prop where
  ne_nil : text ≠ []
  segments : AreSegments text value

/-- Words with blanks between them, in front of them and behind them, with the values of the
words. -/
inductive IsLine : Text → List Text → Prop
  | nil : IsLine [] []
  | last {text value : Text} (hword : IsWord text value) : IsLine text [value]
  | blank {c : Char} {rest : Text} {tokens : List Text} (hc : isBlank c = true)
      (hrest : IsLine rest tokens) : IsLine (c :: rest) tokens
  | word {text value rest : Text} {c : Char} {tokens : List Text} (hword : IsWord text value)
      (hc : isBlank c = true) (hrest : IsLine rest tokens) :
      IsLine (text ++ c :: rest) (value :: tokens)

/-- The line ends right behind a backslash that has no character yet, outside quotations or in a
double one. -/
inductive EndsAfterBackslash : Text → Prop
  | outside {before : Text} {tokens : List Text} (h : IsLine before tokens) :
      EndsAfterBackslash (before ++ ['\\'])
  | double {before inside value : Text} {tokens : List Text} (h : IsLine before tokens)
      (hinside : IsInside inside value) : EndsAfterBackslash (before ++ '"' :: inside ++ ['\\'])

/-- The line ends in a quotation that is still open, which in a double one may be right behind a
backslash. -/
inductive EndsInQuotation : Text → Prop
  | single {before inside : Text} {tokens : List Text} (h : IsLine before tokens)
      (hinside : '\'' ∉ inside) : EndsInQuotation (before ++ '\'' :: inside)
  | double {before inside value : Text} {tokens : List Text} (h : IsLine before tokens)
      (hinside : IsInside inside value) : EndsInQuotation (before ++ '"' :: inside)
  | doubleBackslash {before inside value : Text} {tokens : List Text} (h : IsLine before tokens)
      (hinside : IsInside inside value) : EndsInQuotation (before ++ '"' :: inside ++ ['\\'])

/-! ## 2. What the reader makes of the grammar -/

section Reading

variable {text value inside rest : Text} {tokens : List Text}

theorem IsInside.scan_double (h : IsInside inside value) (word rest : Text) :
    scan (.double word) (inside ++ rest) = scan (.double (value.reverse ++ word)) rest := by
  induction h generalizing word with
  | nil => rfl
  | plain hquote hbackslash _ ih =>
    rw [List.cons_append, scan_double_cons, if_neg hquote, if_neg hbackslash, ih,
      List.reverse_cons, List.append_assoc, List.singleton_append]
  | escaped hc _ ih =>
    rw [List.cons_append, List.cons_append, scan_double_cons, if_neg (by decide), if_pos rfl,
      scan_doubleEscaped_cons, if_pos hc, ih, List.reverse_cons, List.append_assoc,
      List.singleton_append]
  | pair hc _ ih =>
    rw [List.cons_append, List.cons_append, scan_double_cons, if_neg (by decide), if_pos rfl,
      scan_doubleEscaped_cons, if_neg hc, ih, List.reverse_cons, List.reverse_cons,
      List.append_assoc, List.append_assoc, List.singleton_append, List.singleton_append]

theorem scan_single_inside (h : '\'' ∉ inside) (word rest : Text) :
    scan (.single word) (inside ++ rest) = scan (.single (inside.reverse ++ word)) rest := by
  induction inside generalizing word with
  | nil => rfl
  | cons c inside ih =>
    rw [List.mem_cons, not_or] at h
    rw [List.cons_append, scan_single_cons, if_neg (Ne.symm h.1), ih h.2, List.reverse_cons,
      List.append_assoc, List.singleton_append]

/-- Opening a single quotation. -/
theorem scan_bare_single (word rest : Text) :
    scan (.bare word) ('\'' :: rest) = scan (.single word) rest := by
  rw [scan_bare_cons, if_neg (by decide), if_neg (by decide), if_pos rfl]

/-- Opening a double quotation. -/
theorem scan_bare_double (word rest : Text) :
    scan (.bare word) ('"' :: rest) = scan (.double word) rest := by
  rw [scan_bare_cons, if_neg (by decide), if_neg (by decide), if_neg (by decide), if_pos rfl]

theorem scan_bare_backslash (word rest : Text) :
    scan (.bare word) ('\\' :: rest) = scan (.escaped word) rest := by
  rw [scan_bare_cons, if_neg (by decide), if_pos rfl]

/-- A character that is no blank begins a word. -/
theorem scan_between_eq_bare {c : Char} (hc : isBlank c = false) (rest : Text) :
    scan .between (c :: rest) = scan (.bare []) (c :: rest) := by
  rw [scan_between_cons, scan_bare_cons, hc]
  rfl

theorem IsSegment.scan_bare (h : IsSegment text value) (word rest : Text) :
    scan (.bare word) (text ++ rest) = scan (.bare (value.reverse ++ word)) rest := by
  cases h with
  | plain hblank hbackslash hsingle hdouble =>
    rw [List.singleton_append, scan_bare_cons, if_neg (by simp [hblank]), if_neg hbackslash,
      if_neg hsingle, if_neg hdouble]
    rfl
  | escaped c =>
    rw [List.cons_append, scan_bare_backslash, List.singleton_append, scan_escaped_cons]
    rfl
  | single hinside =>
    rw [List.cons_append, List.cons_append, scan_bare_single, List.append_assoc,
      scan_single_inside hinside, List.singleton_append, scan_single_cons, if_pos rfl]
  | double hinside =>
    rw [List.cons_append, List.cons_append, scan_bare_double, List.append_assoc,
      hinside.scan_double, List.singleton_append, scan_double_cons, if_pos rfl]

theorem AreSegments.scan_bare (h : AreSegments text value) (word rest : Text) :
    scan (.bare word) (text ++ rest) = scan (.bare (value.reverse ++ word)) rest := by
  induction h generalizing word with
  | nil => rfl
  | cons hsegment _ ih =>
    rw [List.append_assoc, hsegment.scan_bare, ih, List.reverse_append, List.append_assoc]

/-- No word begins with a blank. -/
theorem IsWord.head (h : IsWord text value) : ∃ c rest, text = c :: rest ∧ isBlank c = false := by
  cases h.segments with
  | nil => exact absurd rfl h.ne_nil
  | cons hsegment hrest =>
    cases hsegment with
    | plain hblank _ _ _ => exact ⟨_, _, rfl, hblank⟩
    | escaped c => exact ⟨_, _, rfl, by decide⟩
    | single hinside => exact ⟨_, _, rfl, by decide⟩
    | double hinside => exact ⟨_, _, rfl, by decide⟩

/-- **A word is read as its value**, with the end of the word still to come. -/
theorem IsWord.scan_between (h : IsWord text value) (rest : Text) :
    scan .between (text ++ rest) = scan (.bare value.reverse) rest := by
  obtain ⟨c, more, heq, hc⟩ := h.head
  have hbare := h.segments.scan_bare [] rest
  rw [List.append_nil] at hbare
  rw [← hbare, heq, List.cons_append, scan_between_eq_bare hc]

/-- Between two words, or in a word and outside quotations. -/
inductive Position.IsOpen : Position → Prop
  | between : IsOpen .between
  | bare (word : Text) : IsOpen (.bare word)

/-- **A line of the grammar is read word by word**, and what comes behind it is read on from between
two words or from inside the last one. -/
theorem IsLine.scan_append (h : IsLine text tokens) :
    ∃ done p, p.IsOpen ∧ (scan p []).map (done ++ ·) = .ok tokens ∧
      ∀ rest, scan .between (text ++ rest) = (scan p rest).map (done ++ ·) := by
  have hnone (r : Except DecodeError (List Text)) : r.map ([] ++ ·) = r := by
    cases r <;> rfl
  induction h with
  | nil =>
    refine ⟨[], .between, .between, rfl, ?_⟩
    intro rest
    exact (hnone _).symm
  | @last text value hword =>
    refine ⟨[], .bare value.reverse, .bare _, ?_, ?_⟩
    · rw [hnone, scan_bare_nil, List.reverse_reverse]
    · intro rest
      rw [hnone]
      exact hword.scan_between rest
  | blank hc _ ih =>
    obtain ⟨done, p, hp, hend, hread⟩ := ih
    refine ⟨done, p, hp, hend, ?_⟩
    intro rest
    rw [List.cons_append, scan_between_cons, if_pos hc, hread]
  | @word text value _ _ tokens hword hc _ ih =>
    obtain ⟨done, p, hp, hend, hread⟩ := ih
    have hmore (r : Except DecodeError (List Text)) :
        (r.map (done ++ ·)).map (value :: ·) = r.map (value :: done ++ ·) := by
      cases r <;> rfl
    refine ⟨value :: done, p, hp, ?_, ?_⟩
    · rw [← hmore, hend]
      rfl
    · intro rest
      rw [List.append_assoc, hword.scan_between, List.cons_append, scan_bare_cons, if_pos hc, hread,
        List.reverse_reverse]
      exact hmore _

theorem IsLine.decode (h : IsLine text tokens) : decode text = .ok tokens := by
  obtain ⟨done, p, -, hend, hread⟩ := h.scan_append
  have htext := hread []
  rw [List.append_nil] at htext
  exact htext.trans hend

/-- What makes the reader fail inside a word makes it fail behind any line of the grammar. -/
theorem IsLine.decode_append {before : Text} (h : IsLine before tokens) {c : Char} {e : DecodeError}
    (hc : isBlank c = false) (hfail : ∀ word, scan (.bare word) (c :: rest) = .error e) :
    Words.decode (before ++ c :: rest) = .error e := by
  obtain ⟨done, p, hp, -, hread⟩ := h.scan_append
  have herror : scan p (c :: rest) = .error e := by
    cases hp with
    | between => exact (scan_between_eq_bare hc rest).trans (hfail [])
    | bare word => exact hfail word
  rw [Words.decode, hread, herror]
  rfl

theorem EndsAfterBackslash.decode (h : EndsAfterBackslash text) :
    decode text = .error .noEscapedCharacter := by
  cases h with
  | outside h =>
    refine h.decode_append (by decide) ?_
    intro word
    rw [scan_bare_backslash]
    rfl
  | double h hinside =>
    rw [List.append_assoc, List.cons_append]
    refine h.decode_append (by decide) ?_
    intro word
    rw [scan_bare_double, hinside.scan_double, scan_double_cons, if_neg (by decide), if_pos rfl]
    rfl

theorem EndsInQuotation.decode (h : EndsInQuotation text) :
    decode text = .error .noClosingQuotation ∨ EndsAfterBackslash text := by
  cases h with
  | single h hinside =>
    refine .inl (h.decode_append (by decide) ?_)
    intro word
    have hread := scan_single_inside hinside word []
    rw [List.append_nil] at hread
    rw [scan_bare_single, hread]
    rfl
  | double h hinside =>
    refine .inl (h.decode_append (by decide) ?_)
    intro word
    have hread := hinside.scan_double word []
    rw [List.append_nil] at hread
    rw [scan_bare_double, hread]
    rfl
  | doubleBackslash h hinside => exact .inr (.double h hinside)

end Reading

/-! ## 3. What has been read -/

section Invariant

variable {text value inside rest : Text} {p : Position} {c : Char}

theorem IsInside.append {more value' : Text} (h : IsInside inside value)
    (hmore : IsInside more value') : IsInside (inside ++ more) (value ++ value') := by
  induction h with
  | nil => exact hmore
  | plain hquote hbackslash _ ih => exact .plain hquote hbackslash ih
  | escaped hc _ ih => exact .escaped hc ih
  | pair hc _ ih => exact .pair hc ih

/-- One more segment at the end is a segment of a word. -/
theorem AreSegments.isWord {segment x : Text} (h : AreSegments text value)
    (hsegment : IsSegment segment x) : IsWord (text ++ segment) (value ++ x) := by
  constructor
  · intro hnil
    cases hsegment <;> exact absurd (List.append_eq_nil_iff.mp hnil).2 (by simp)
  · induction h with
    | nil =>
      have hsingle := AreSegments.cons hsegment .nil
      rwa [List.append_nil, List.append_nil] at hsingle
    | cons hfirst _ ih =>
      rw [List.append_assoc, List.append_assoc]
      exact .cons hfirst ih

theorem AreSegments.isLine (h : AreSegments text value) : ∃ tokens, IsLine text tokens := by
  by_cases hnil : text = []
  · rw [hnil]
    exact ⟨[], .nil⟩
  · exact ⟨[value], .last ⟨hnil, h⟩⟩

/-- **What has been read of the word** when the reader is at a position. -/
inductive Reached : Position → Text → Prop
  | between : Reached .between []
  | bare {text value : Text} (h : IsWord text value) : Reached (.bare value.reverse) text
  | escaped {text value : Text} (h : AreSegments text value) :
      Reached (.escaped value.reverse) (text ++ ['\\'])
  | single {text value inside : Text} (h : AreSegments text value) (hinside : '\'' ∉ inside) :
      Reached (.single (inside.reverse ++ value.reverse)) (text ++ '\'' :: inside)
  | double {text value inside x : Text} (h : AreSegments text value) (hinside : IsInside inside x) :
      Reached (.double (x.reverse ++ value.reverse)) (text ++ '"' :: inside)
  | doubleEscaped {text value inside x : Text} (h : AreSegments text value)
      (hinside : IsInside inside x) :
      Reached (.doubleEscaped (x.reverse ++ value.reverse)) (text ++ '"' :: inside ++ ['\\'])

/-- One character further in a word that is outside quotations, or has not begun. -/
theorem AreSegments.step (h : AreSegments text value) (hc : isBlank c = false) :
    ∃ p, Reached p (text ++ [c]) ∧
      ∀ rest, scan (.bare value.reverse) (c :: rest) = scan p rest := by
  by_cases hbackslash : c = '\\'
  · subst hbackslash
    exact ⟨_, .escaped h, scan_bare_backslash _⟩
  by_cases hsingle : c = '\''
  · subst hsingle
    exact ⟨_, .single h List.not_mem_nil, scan_bare_single _⟩
  by_cases hdouble : c = '"'
  · subst hdouble
    exact ⟨_, .double h .nil, scan_bare_double _⟩
  have hplain : IsSegment [c] [c] := .plain hc hbackslash hsingle hdouble
  refine ⟨_, .bare (h.isWord hplain), ?_⟩
  intro rest
  rw [List.reverse_append]
  exact hplain.scan_bare value.reverse rest

/-- **One character keeps what has been read**, unless it is a blank that stands in front of a word
or ends it. -/
theorem Reached.step (h : Reached p text) (c : Char) :
    (∃ p', Reached p' (text ++ [c]) ∧ ∀ rest, scan p (c :: rest) = scan p' rest) ∨
      isBlank c = true ∧ (p = .between ∧ text = [] ∨
        ∃ value, p = .bare value.reverse ∧ IsWord text value) := by
  cases h with
  | between =>
    cases hc : isBlank c with
    | true => exact .inr ⟨rfl, .inl ⟨rfl, rfl⟩⟩
    | false =>
      obtain ⟨p', hp', hread⟩ := AreSegments.nil.step hc
      refine .inl ⟨p', hp', ?_⟩
      intro rest
      exact (scan_between_eq_bare hc rest).trans (hread rest)
  | bare hword =>
    cases hc : isBlank c with
    | true => exact .inr ⟨rfl, .inr ⟨_, rfl, hword⟩⟩
    | false => exact .inl (hword.segments.step hc)
  | @escaped text value h =>
    have hreached := Reached.bare (h.isWord (.escaped c))
    rw [List.reverse_append] at hreached
    refine .inl ⟨_, ?_, fun rest => rfl⟩
    rw [List.append_assoc]
    exact hreached
  | @single text value inside h hinside =>
    by_cases hc : c = '\''
    · subst hc
      have hreached := Reached.bare (h.isWord (.single hinside))
      rw [List.reverse_append, ← List.append_assoc] at hreached
      refine .inl ⟨_, hreached, ?_⟩
      intro rest
      rw [scan_single_cons, if_pos rfl]
    · have hlonger : '\'' ∉ inside ++ [c] := by
        rw [List.mem_append, List.mem_singleton]
        exact not_or.mpr ⟨hinside, Ne.symm hc⟩
      have hreached := Reached.single h hlonger
      rw [List.reverse_concat, ← List.cons_append, ← List.append_assoc] at hreached
      refine .inl ⟨_, hreached, ?_⟩
      intro rest
      rw [scan_single_cons, if_neg hc]
      rfl
  | @double text value inside x h hinside =>
    by_cases hquote : c = '"'
    · subst hquote
      have hreached := Reached.bare (h.isWord (.double hinside))
      rw [List.reverse_append, ← List.append_assoc] at hreached
      refine .inl ⟨_, hreached, ?_⟩
      intro rest
      rw [scan_double_cons, if_pos rfl]
    by_cases hbackslash : c = '\\'
    · subst hbackslash
      refine .inl ⟨_, .doubleEscaped h hinside, ?_⟩
      intro rest
      rw [scan_double_cons, if_neg hquote, if_pos rfl]
    · have hreached := Reached.double h (hinside.append (.plain hquote hbackslash .nil))
      rw [List.reverse_concat, ← List.cons_append, ← List.append_assoc] at hreached
      refine .inl ⟨_, hreached, ?_⟩
      intro rest
      rw [scan_double_cons, if_neg hquote, if_neg hbackslash]
      rfl
  | @doubleEscaped text value inside x h hinside =>
    have hspelled : text ++ '"' :: inside ++ ['\\'] ++ [c] =
        text ++ '"' :: (inside ++ ['\\', c]) := by
      simp
    by_cases hc : c = '"' ∨ c = '\\'
    · have hreached := Reached.double h (hinside.append (.escaped hc .nil))
      rw [List.reverse_concat] at hreached
      refine .inl ⟨_, hspelled ▸ hreached, ?_⟩
      intro rest
      rw [scan_doubleEscaped_cons, if_pos hc]
      rfl
    · have hreached := Reached.double h (hinside.append (.pair hc .nil))
      rw [List.reverse_append] at hreached
      refine .inl ⟨_, hspelled ▸ hreached, ?_⟩
      intro rest
      rw [scan_doubleEscaped_cons, if_neg hc]
      rfl

/-! ## 4. What an answer says -/

/-- What an answer of the reader says about the line. -/
def Explains (line : Text) : Except DecodeError (List Text) → Prop
  | .ok tokens => IsLine line tokens
  | .error .noEscapedCharacter => EndsAfterBackslash line
  | .error .noClosingQuotation => EndsInQuotation line

/-- What stands in front of a line and makes a line with it does not change what an answer says. -/
theorem Explains.behind {front : Text} {f : List Text → List Text}
    (hfront : ∀ {text tokens}, IsLine text tokens → IsLine (front ++ text) (f tokens))
    {r : Except DecodeError (List Text)} (h : Explains rest r) :
    Explains (front ++ rest) (r.map f) := by
  cases r with
  | ok tokens => exact hfront h
  | error e =>
    cases e with
    | noEscapedCharacter =>
      have hends : EndsAfterBackslash rest := h
      show EndsAfterBackslash (front ++ rest)
      cases hends with
      | outside hline =>
        rw [← List.append_assoc]
        exact .outside (hfront hline)
      | double hline hinside =>
        rw [← List.append_assoc, ← List.append_assoc]
        exact .double (hfront hline) hinside
    | noClosingQuotation =>
      have hends : EndsInQuotation rest := h
      show EndsInQuotation (front ++ rest)
      cases hends with
      | single hline hinside =>
        rw [← List.append_assoc]
        exact .single (hfront hline) hinside
      | double hline hinside =>
        rw [← List.append_assoc]
        exact .double (hfront hline) hinside
      | doubleBackslash hline hinside =>
        rw [← List.append_assoc, ← List.append_assoc]
        exact .doubleBackslash (hfront hline) hinside

/-- Where the line ends, the position says which kind of line it was. -/
theorem Reached.explains (h : Reached p text) : Explains text (scan p []) := by
  cases h with
  | between => exact IsLine.nil
  | bare hword =>
    rw [scan_bare_nil, List.reverse_reverse]
    exact IsLine.last hword
  | escaped h =>
    obtain ⟨tokens, hline⟩ := h.isLine
    exact EndsAfterBackslash.outside hline
  | single h hinside =>
    obtain ⟨tokens, hline⟩ := h.isLine
    exact EndsInQuotation.single hline hinside
  | double h hinside =>
    obtain ⟨tokens, hline⟩ := h.isLine
    exact EndsInQuotation.double hline hinside
  | doubleEscaped h hinside =>
    obtain ⟨tokens, hline⟩ := h.isLine
    exact EndsAfterBackslash.double hline hinside

/-- **The answer for the rest of a line explains the line** from the word on that has been begun. -/
theorem Reached.outcome (h : Reached p text) (rest : Text) :
    Explains (text ++ rest) (scan p rest) := by
  induction rest generalizing p text with
  | nil =>
    rw [List.append_nil]
    exact h.explains
  | cons c rest ih =>
    rcases h.step c with ⟨p', hp', hread⟩ | ⟨hc, ⟨rfl, rfl⟩ | ⟨value, rfl, hword⟩⟩
    · have hrest := ih hp'
      rw [List.append_assoc] at hrest
      rw [hread]
      exact hrest
    · have hsame : scan .between (c :: rest) = (scan .between rest).map id := by
        rw [scan_between_cons, if_pos hc]
        cases scan .between rest <;> rfl
      rw [hsame]
      show Explains ([c] ++ rest) _
      refine Explains.behind ?_ (ih .between)
      intro line tokens hline
      exact .blank hc hline
    · rw [scan_bare_cons, if_pos hc, List.reverse_reverse, ← List.singleton_append,
        ← List.append_assoc]
      refine Explains.behind ?_ (ih .between)
      intro line tokens hline
      rw [List.append_assoc]
      exact .word hword hc hline

end Invariant

/-! ## 5. All answers -/

theorem decode_explains {line : Text} {r : Except DecodeError (List Text)} (h : decode line = r) :
    Explains line r := by
  rw [← h]
  exact Reached.between.outcome line

theorem decode_eq_ok_iff (line : Text) (tokens : List Text) :
    decode line = .ok tokens ↔ IsLine line tokens := by
  constructor
  · exact decode_explains
  · exact IsLine.decode

theorem decode_eq_noEscapedCharacter_iff (line : Text) :
    decode line = .error .noEscapedCharacter ↔ EndsAfterBackslash line := by
  constructor
  · exact decode_explains
  · exact EndsAfterBackslash.decode

theorem decode_eq_noClosingQuotation_iff (line : Text) :
    decode line = .error .noClosingQuotation ↔ EndsInQuotation line ∧ ¬EndsAfterBackslash line := by
  constructor
  · intro h
    refine ⟨decode_explains h, ?_⟩
    intro hbackslash
    rw [hbackslash.decode] at h
    exact absurd h (by decide)
  · rintro ⟨hquotation, hnot⟩
    exact hquotation.decode.resolve_right hnot

/-- The text of an error tells which one it is. -/
theorem message_eq_iff (line : Text) (e : DecodeError) :
    (∃ e', decode line = .error e' ∧ e'.message = e.message) ↔ decode line = .error e := by
  constructor
  · rintro ⟨e', h, hmessage⟩
    rw [h]
    cases e <;> cases e' <;> first | rfl | exact absurd hmessage (by decide)
  · intro h
    exact ⟨e, h, rfl⟩

/-- **The reader accepts the lines of the grammar and no others**, with the values of their words.
Any other line it refuses: as one that lacks an escaped character if the line ends right behind a
backslash that waits for one, and as one that lacks a closing quotation if the line ends in an open
quotation and not right behind such a backslash. -/
theorem decode_grammar (line : Text) :
    (∀ tokens, decode line = .ok tokens ↔ IsLine line tokens) ∧
    ((∀ tokens, ¬IsLine line tokens) ↔ ∃ e, decode line = .error e) ∧
    ((∃ e, decode line = .error e ∧ e.message = "No escaped character".toList) ↔
      EndsAfterBackslash line) ∧
    ((∃ e, decode line = .error e ∧ e.message = "No closing quotation".toList) ↔
      EndsInQuotation line ∧ ¬EndsAfterBackslash line) := by
  refine ⟨decode_eq_ok_iff line, ?_, ?_, ?_⟩
  · constructor
    · intro hnone
      cases h : decode line with
      | ok tokens => exact absurd ((decode_eq_ok_iff line tokens).mp h) (hnone tokens)
      | error e => exact ⟨e, rfl⟩
    · rintro ⟨e, h⟩ tokens hline
      rw [hline.decode] at h
      exact absurd h (by simp)
  · rw [← decode_eq_noEscapedCharacter_iff]
    exact message_eq_iff line .noEscapedCharacter
  · rw [← decode_eq_noClosingQuotation_iff]
    exact message_eq_iff line .noClosingQuotation

/-- A line can end in an open quotation and still lack an escaped character first. -/
theorem not_decode_of_endsInQuotation :
    ¬∀ line, (∃ e, decode line = .error e ∧ e.message = "No closing quotation".toList) ↔
      EndsInQuotation line := by
  intro h
  have hquotation : EndsInQuotation ['"', '\\'] := .doubleBackslash .nil .nil
  obtain ⟨e, hdecode, hmessage⟩ := (h _).mpr hquotation
  have hread : decode ['"', '\\'] = .error .noEscapedCharacter := by decide
  obtain rfl := Except.error.inj (hread.symm.trans hdecode)
  exact absurd hmessage (by decide)

end CompileJournal.Words
