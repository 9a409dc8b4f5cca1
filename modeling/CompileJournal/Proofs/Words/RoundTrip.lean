import CompileJournal.Words.Encode
import CompileJournal.Words.Decode
import Mathlib.Tactic.Common

/-!
# Reading back what was written

A line that was written from tokens is read back as the same tokens.  The proof goes through the
reader's positions: a written token takes the reader from *between two words* to *inside a word*
whose characters so far are those of the token, whatever comes after it, and the blank between
two tokens, or the end of the line, closes that word.

* `scan_between_encodeWord`: what the reader makes of one written token;
* `decode_encode`: the round trip of a list of tokens;
* `encode_roundTrip`: the round trip, that no two lists are written alike, and that what was
  written is written again after it was read.
-/

namespace CompileJournal.Words

/-! ## 1. One character

What the reader does next depends on its position and on one character.  There is one equation for
each position, and the proofs below and those of the grammar rewrite with them. -/

section Character

variable (c : Char) (word rest : Text)

theorem scan_between_cons :
    scan .between (c :: rest) =
      if isBlank c then scan .between rest
      else if c = '\\' then scan (.escaped []) rest
      else if c = '\'' then scan (.single []) rest
      else if c = '"' then scan (.double []) rest
      else scan (.bare [c]) rest :=
  rfl

theorem scan_bare_cons :
    scan (.bare word) (c :: rest) =
      if isBlank c then (scan .between rest).map (word.reverse :: ·)
      else if c = '\\' then scan (.escaped word) rest
      else if c = '\'' then scan (.single word) rest
      else if c = '"' then scan (.double word) rest
      else scan (.bare (c :: word)) rest :=
  rfl

theorem scan_escaped_cons :
    scan (.escaped word) (c :: rest) = scan (.bare (c :: word)) rest :=
  rfl

theorem scan_single_cons :
    scan (.single word) (c :: rest) =
      if c = '\'' then scan (.bare word) rest else scan (.single (c :: word)) rest :=
  rfl

theorem scan_double_cons :
    scan (.double word) (c :: rest) =
      if c = '"' then scan (.bare word) rest
      else if c = '\\' then scan (.doubleEscaped word) rest
      else scan (.double (c :: word)) rest :=
  rfl

theorem scan_doubleEscaped_cons :
    scan (.doubleEscaped word) (c :: rest) =
      if c = '"' ∨ c = '\\' then scan (.double (c :: word)) rest
      else scan (.double (c :: '\\' :: word)) rest :=
  rfl

@[simp] theorem scan_between_nil : scan .between [] = .ok [] :=
  rfl

/-- The end of the line closes a word that is outside quotations. -/
@[simp] theorem scan_bare_nil : scan (.bare word) [] = .ok [word.reverse] :=
  rfl

end Character

/-! ## 2. One token -/

/-- A character that needs no quotes means nothing to the reader. -/
theorem plain_of_isSafe {c : Char} (h : isSafe c = true) :
    isBlank c = false ∧ c ≠ '\\' ∧ c ≠ '\'' ∧ c ≠ '"' := by
  refine ⟨?_, ?_, ?_, ?_⟩
  · simp only [isBlank, Bool.or_eq_false_iff, decide_eq_false_iff_not]
    refine ⟨⟨⟨?_, ?_⟩, ?_⟩, ?_⟩ <;> (rintro rfl; revert h; decide)
  all_goals (rintro rfl; revert h; decide)

/-- Characters that need no quotes are added to the word. -/
theorem scan_bare_safe {token : Text} (h : ∀ c ∈ token, isSafe c = true) (word rest : Text) :
    scan (.bare word) (token ++ rest) = scan (.bare (token.reverse ++ word)) rest := by
  induction token generalizing word with
  | nil => rfl
  | cons c token ih =>
    obtain ⟨hb, h1, h2, h3⟩ := plain_of_isSafe (h c List.mem_cons_self)
    have hrest : ∀ d ∈ token, isSafe d = true := fun d hd => h d (List.mem_cons_of_mem _ hd)
    rw [List.cons_append, scan_bare_cons, if_neg (by simp [hb]), if_neg h1, if_neg h2, if_neg h3,
      ih hrest, List.reverse_cons, List.append_assoc, List.singleton_append]

/-- Between single quotes a written character is added to the word.  A single quote leaves the
quotes, comes back from double quotes and enters single ones again. -/
theorem scan_single_encodeChar (c : Char) (word rest : Text) :
    scan (.single word) (encodeChar c ++ rest) = scan (.single (c :: word)) rest := by
  unfold encodeChar
  split
  · next hc =>
    subst hc
    simp [scan_single_cons, scan_bare_cons, scan_double_cons, isBlank]
  · next hc =>
    rw [List.singleton_append, scan_single_cons, if_neg hc]

/-- The inside of single quotes is added to the word, and the quote at its end leads out. -/
theorem scan_single_encoded (token word rest : Text) :
    scan (.single word) (token.flatMap encodeChar ++ '\'' :: rest)
      = scan (.bare (token.reverse ++ word)) rest := by
  induction token generalizing word with
  | nil => simp [scan_single_cons]
  | cons c token ih =>
    rw [List.flatMap_cons, List.append_assoc, scan_single_encodeChar, ih, List.reverse_cons,
      List.append_assoc, List.singleton_append]

/-- **A written token is read as the characters of the token**, with the end of the word still
to come. -/
theorem scan_between_encodeWord (token rest : Text) :
    scan .between (encodeWord token ++ rest) = scan (.bare token.reverse) rest := by
  unfold encodeWord
  split
  · next h =>
    obtain ⟨hne, hall⟩ := (Bool.and_eq_true _ _).mp h
    cases token with
    | nil => simp at hne
    | cons c token =>
      have hsafe : ∀ d ∈ c :: token, isSafe d = true := List.all_eq_true.mp hall
      obtain ⟨hb, h1, h2, h3⟩ := plain_of_isSafe (hsafe c List.mem_cons_self)
      rw [List.cons_append, scan_between_cons, if_neg (by simp [hb]), if_neg h1, if_neg h2,
        if_neg h3, scan_bare_safe fun d hd => hsafe d (List.mem_cons_of_mem _ hd),
        List.reverse_cons]
  · rw [List.cons_append, List.cons_append, List.append_assoc, List.singleton_append,
      scan_between_cons, if_neg (by decide), if_neg (by decide), if_pos rfl, scan_single_encoded,
      List.append_nil]

/-! ## 3. A list of tokens -/

@[simp] theorem encode_singleton (token : Text) : encode [token] = encodeWord token := by
  simp [encode, Text.joinWith]

/-- One space stands between two tokens. -/
theorem encode_cons_cons (token next : Text) (tokens : List Text) :
    encode (token :: next :: tokens) = encodeWord token ++ ' ' :: encode (next :: tokens) := by
  simp [encode, Text.joinWith, List.intercalate]

/-- What was written is read back. -/
theorem decode_encode (tokens : List Text) : decode (encode tokens) = .ok tokens := by
  unfold decode
  induction tokens with
  | nil => rfl
  | cons token tokens ih =>
    cases tokens with
    | nil =>
      have h := scan_between_encodeWord token []
      rw [List.append_nil] at h
      rw [encode_singleton, h, scan_bare_nil, List.reverse_reverse]
    | cons next tokens =>
      rw [encode_cons_cons, scan_between_encodeWord, scan_bare_cons, if_pos (by decide), ih,
        List.reverse_reverse]
      rfl

/-- A line break at the end of a line closes the last word, if that is still open, and does nothing
else. -/
theorem scan_append_newline {position : Position} {line : Text} {tokens : List Text}
    (h : scan position line = .ok tokens) : scan position (line ++ ['\n']) = .ok tokens := by
  fun_induction scan position line generalizing tokens with
  | case1 => simpa [scan_between_cons, isBlank] using h
  | case2 word => simpa [scan_bare_cons, isBlank, Except.map] using h
  | case3 | case4 | case5 | case6 => exact absurd h (by simp)
  | case12 word c rest hblank ih =>
    cases hrest : scan .between rest with
    | error e =>
      rw [hrest] at h
      exact absurd h (by simp [Except.map])
    | ok later => rw [List.cons_append, scan_bare_cons, if_pos hblank, ih hrest, ← h, hrest]
  -- One character is read, and the rest of the line is the same with a line break.
  | _ =>
    simp_all [scan_between_cons, scan_bare_cons, scan_escaped_cons, scan_single_cons,
      scan_double_cons, scan_doubleEscaped_cons]

theorem decode_append_newline {line : Text} {tokens : List Text} (h : decode line = .ok tokens) :
    decode (line ++ ['\n']) = .ok tokens :=
  scan_append_newline h

/-- **Writing and reading are inverse to each other on written lines.**  Every list of tokens is
read back from its line, so two lists never share a line, and reading a line that was written and
writing the tokens again gives the same line. -/
theorem encode_roundTrip :
    (∀ tokens : List Text, decode (encode tokens) = .ok tokens) ∧
      Function.Injective encode ∧
      ∀ line : Text, (∃ written : List Text, line = encode written) →
        ∃ tokens : List Text, decode line = .ok tokens ∧ encode tokens = line := by
  refine ⟨decode_encode, ?_, ?_⟩
  · intro tokens others h
    have hread : decode (encode tokens) = decode (encode others) := congrArg decode h
    rw [decode_encode, decode_encode] at hread
    exact Except.ok.inj hread
  · rintro line ⟨written, rfl⟩
    exact ⟨written, decode_encode written, rfl⟩

end CompileJournal.Words
