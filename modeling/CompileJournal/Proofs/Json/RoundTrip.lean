import CompileJournal.Commands.Export
import CompileJournal.Proofs.Json.Reader
import Mathlib.Tactic.Common

/-!
# Reading a compilation database back

The written form of the entries is JSON, and says just these entries.  The proof goes up with the
nesting: a character is read back from whichever escape it was given, a text from its characters,
a list from what its items are read back as, however deep it is indented, and an entry from its
three fields.  Each step holds whatever comes after the written form, as the reader is told
nowhere how long a value is.

* `readUnits_escapeChar`, `decodeUnits_utf16`: one character;
* `readSeq_renderItems`: items between brackets;
* `ReadsAs`: a written form is read back, in any place;
* `parse_renderAll`: all entries, from which `renderAll_injective` follows;
* `isPlain_renderAll`: the written form is ASCII.
-/

namespace CompileJournal

namespace Json

open CompileEntry

/-! ## 1. Characters -/

theorem hexValue?_digitChar {n : Nat} (h : n < 16) : hexValue? (Nat.digitChar n) = some n := by
  have hall : ∀ n < 16, hexValue? (Nat.digitChar n) = some n := by decide
  exact hall n h

/-- The last hexadecimal digit is read after those in front of it. -/
theorem hexNumber?_hexDigits_succ (width n : Nat) : hexNumber? (Text.hexDigits (width + 1) n) =
    (hexNumber? (Text.hexDigits width (n / 16))).map fun k => 16 * k + n % 16 := by
  have hlast := hexValue?_digitChar (Nat.mod_lt n (by decide : 0 < 16))
  unfold hexNumber?
  rw [Text.hexDigits, List.foldlM_append]
  cases (Text.hexDigits width (n / 16)).foldlM (fun n c => (hexValue? c).map (16 * n + ·)) 0 with
  | none => rfl
  | some k => simp [hlast]

/-- A number below 65536 is read back from four digits. -/
theorem hexNumber?_hexDigits {n : Nat} (h : n < 0x10000) :
    hexNumber? (Text.hexDigits 4 n) = some n := by
  have hnil : hexNumber? (Text.hexDigits 0 (n / 16 / 16 / 16 / 16)) = some 0 := rfl
  simp only [hexNumber?_hexDigits_succ, hnil, Option.map_some, Option.some.injEq]
  omega

/-- The first character tells how many units are read at once. -/
theorem readUnits_cons (c : Char) (rest : Text) :
    readUnits (c :: rest) =
      if c = '"' then some ([], rest)
      else if c = '\\' then
        match rest with
        | [] => none
        | letter :: rest =>
          if letter = 'u' then
            match rest with
            | h₁ :: h₂ :: h₃ :: h₄ :: rest =>
              (hexNumber? [h₁, h₂, h₃, h₄]).bind fun n =>
                (readUnits rest).map fun r => (n :: r.1, r.2)
            | _ => none
          else
            (shortEscapes.lookup letter).bind fun d =>
              (readUnits rest).map fun r => (utf16 d ++ r.1, r.2)
      else if c.toNat < 0x20 then none
      else (readUnits rest).map fun r => (utf16 c ++ r.1, r.2) :=
  readUnits.eq_def _

/-- A unit is read back from its escape. -/
theorem readUnits_unitEscape {n : Nat} (h : n < 0x10000) (rest : Text) :
    readUnits (unitEscape n ++ rest) = (readUnits rest).map fun r => (n :: r.1, r.2) := by
  have hdigits := hexNumber?_hexDigits h
  simp only [Text.hexDigits, List.nil_append, List.cons_append] at hdigits
  simp only [unitEscape, Text.hexDigits, List.nil_append, List.cons_append]
  rw [readUnits_cons]
  simp [hdigits]

/-- A character is read back from a short escape. -/
theorem readUnits_short {letter c : Char} (h : shortEscapes.lookup letter = some c) (rest : Text) :
    readUnits ('\\' :: letter :: rest)
      = (readUnits rest).map fun r => (utf16 c ++ r.1, r.2) := by
  have hu : letter ≠ 'u' := by
    rintro rfl
    have hnone : shortEscapes.lookup 'u' = none := by decide
    simp [hnone] at h
  rw [readUnits_cons]
  simp [hu, h]

/-- Where a character stands for itself. -/
theorem readUnits_self {c : Char} (hquote : c ≠ '"') (hback : c ≠ '\\') (h : 0x20 ≤ c.toNat)
    (rest : Text) :
    readUnits (c :: rest) = (readUnits rest).map fun r => (utf16 c ++ r.1, r.2) := by
  rw [readUnits_cons]
  simp [hquote, hback, Nat.not_lt.mpr h]

theorem toNat_valid (c : Char) : c.toNat < 0xD800 ∨ 0xDFFF < c.toNat ∧ c.toNat < 0x110000 :=
  c.valid

/-- The ways to write a character. -/
theorem escapeChar_cases (c : Char) :
    (∃ letter, escapeChar c = ['\\', letter] ∧ shortEscapes.lookup letter = some c) ∨
    ((c ≠ '"' ∧ c ≠ '\\' ∧ 0x20 ≤ c.toNat ∧ c.toNat < 0x7F) ∧ escapeChar c = [c]) ∨
    (c.toNat < 0x10000 ∧ escapeChar c = unitEscape c.toNat) ∨
    (¬c.toNat < 0x10000 ∧ escapeChar c = unitEscape (0xD800 + (c.toNat - 0x10000) / 0x400) ++
      unitEscape (0xDC00 + (c.toNat - 0x10000) % 0x400)) := by
  by_cases hshort : c ∈ ['"', '\\', '\n', '\r', '\t', '\x0c', '\x08']
  · left
    simp only [List.mem_cons, List.not_mem_nil, or_false] at hshort
    rcases hshort with rfl | rfl | rfl | rfl | rfl | rfl | rfl <;> exact ⟨_, by rfl, by rfl⟩
  · right
    simp only [List.mem_cons, List.not_mem_nil, or_false, not_or] at hshort
    obtain ⟨hquote, hback, hn, hr, ht, hf, hb⟩ := hshort
    simp only [escapeChar, hquote, hback, hn, hr, ht, hf, hb, if_false]
    split
    · next h => exact .inl ⟨⟨hquote, hback, h.1, h.2⟩, rfl⟩
    split
    · next h => exact .inr (.inl ⟨h, rfl⟩)
    · next h => exact .inr (.inr ⟨h, rfl⟩)

/-- **A character is read back from its escape**, as its UTF-16 units. -/
theorem readUnits_escapeChar (c : Char) (rest : Text) :
    readUnits (escapeChar c ++ rest) = (readUnits rest).map fun r => (utf16 c ++ r.1, r.2) := by
  rcases escapeChar_cases c with ⟨letter, he, hshort⟩ | ⟨⟨hquote, hback, hlow, -⟩, he⟩ | ⟨h, he⟩ |
    ⟨h, he⟩ <;> rw [he]
  · exact readUnits_short hshort rest
  · exact readUnits_self hquote hback hlow rest
  · rw [readUnits_unitEscape h, utf16, if_pos h]
    rfl
  · -- A character above U+FFFF is written as two units, of ten bits each.
    have hvalid := toNat_valid c
    have hhigh : 0xD800 + (c.toNat - 0x10000) / 0x400 < 0x10000 := by omega
    have hlow : 0xDC00 + (c.toNat - 0x10000) % 0x400 < 0x10000 := by omega
    rw [List.append_assoc, readUnits_unitEscape hhigh, readUnits_unitEscape hlow, utf16, if_neg h]
    simp [Option.map_map, Function.comp_def]

/-- **A character is put together from its UTF-16 units.** -/
theorem decodeUnits_utf16 (c : Char) (units : List Nat) :
    decodeUnits (utf16 c ++ units) = (decodeUnits units).map (c :: ·) := by
  have hvalid := toNat_valid c
  unfold utf16
  split
  · next h =>
    have hhigh : ¬(0xD800 ≤ c.toNat ∧ c.toNat < 0xDC00) := by omega
    have hlow : ¬(0xDC00 ≤ c.toNat ∧ c.toNat < 0xE000) := by omega
    rw [List.cons_append, decodeUnits.eq_def]
    simp only [hhigh, hlow, if_false, Char.ofNat_toNat, List.nil_append]
  · next h =>
    have hhigh : 0xD800 ≤ 0xD800 + (c.toNat - 0x10000) / 0x400 ∧
        0xD800 + (c.toNat - 0x10000) / 0x400 < 0xDC00 := by omega
    have hlow : 0xDC00 ≤ 0xDC00 + (c.toNat - 0x10000) % 0x400 ∧
        0xDC00 + (c.toNat - 0x10000) % 0x400 < 0xE000 := by omega
    have hsum : 0x10000 + 0x400 * (0xD800 + (c.toNat - 0x10000) / 0x400 - 0xD800)
        + (0xDC00 + (c.toNat - 0x10000) % 0x400 - 0xDC00) = c.toNat := by omega
    rw [List.cons_append, List.cons_append, decodeUnits.eq_def]
    simp only [hhigh, hlow, hsum, and_self, if_true, Char.ofNat_toNat, List.nil_append]

/-! ## 2. Texts -/

theorem readUnits_escaped (t rest : Text) :
    readUnits (t.flatMap escapeChar ++ '"' :: rest) = some (t.flatMap utf16, rest) := by
  induction t with
  | nil => rw [List.flatMap_nil, List.nil_append, readUnits_cons, if_pos rfl, List.flatMap_nil]
  | cons c t ih =>
    rw [List.flatMap_cons, List.append_assoc, readUnits_escapeChar, ih]
    rfl

theorem decodeUnits_flatMap (t : Text) : decodeUnits (t.flatMap utf16) = some t := by
  induction t with
  | nil => rfl
  | cons c t ih =>
    rw [List.flatMap_cons, decodeUnits_utf16, ih]
    rfl

/-- **A text is read back from its written form**, behind the opening quote. -/
theorem readText_escaped (t rest : Text) :
    readText (t.flatMap escapeChar ++ '"' :: rest) = some (t, rest) := by
  simp [readText, readUnits_escaped, decodeUnits_flatMap]

/-! ## 3. Blanks -/

theorem skip_append {gap : Text} (h : ∀ c ∈ gap, isBlank c = true) (t : Text) :
    skip (gap ++ t) = skip t := by
  induction gap with
  | nil => rfl
  | cons c gap ih =>
    rw [List.cons_append, skip, List.dropWhile_cons_of_pos (h c List.mem_cons_self)]
    exact ih fun d hd => h d (List.mem_cons_of_mem _ hd)

theorem skip_cons {c : Char} (h : isBlank c = false) (t : Text) : skip (c :: t) = c :: t := by
  rw [skip, List.dropWhile_cons_of_neg (by simp [h])]

theorem skip_newLine (depth : Nat) (t : Text) : skip (newLine depth ++ t) = skip t := by
  refine skip_append (fun c hc => ?_) t
  rcases List.mem_cons.mp hc with rfl | hc
  · decide
  · rw [(List.mem_replicate.mp hc).2]
    decide

/-- Blanks in front do not matter to a reader. -/
def SkipsBlanks {α : Type} (item : Text → Option (α × Text)) : Prop :=
  ∀ s t, skip s = skip t → item s = item t

/-! ## 4. Items between brackets -/

/-- A written form from which a reader reads a value back, whatever comes after it.  It starts
with an opening bracket or a quote. -/
structure IsWritten {α : Type} (item : Text → Option (α × Text)) (written : Text) (a : α) :
    Prop where
  starts : ∃ c more, written = c :: more ∧ c ∈ ['"', '[', '\x7b']
  reads : ∀ rest, item (written ++ rest) = some (a, rest)

/-- A closing bracket. -/
def IsClosing (c : Char) : Prop := c = ']' ∨ c = '\x7d'

theorem IsClosing.not_blank {c : Char} (h : IsClosing c) : isBlank c = false := by
  rcases h with rfl | rfl <;> decide

theorem IsClosing.ne_comma {c : Char} (h : IsClosing c) : c ≠ ',' := by
  rcases h with rfl | rfl <;> decide

/-- What a written form starts with is neither a blank nor a closing bracket. -/
theorem IsWritten.skip {α : Type} {item : Text → Option (α × Text)} {written : Text} {a : α}
    (h : IsWritten item written a) (rest : Text) :
    ∃ c more, Json.skip (written ++ rest) = c :: more ∧ ¬IsClosing c := by
  obtain ⟨c, more, rfl, hc⟩ := h.starts
  have hopens : isBlank c = false ∧ ¬IsClosing c := by
    simp only [List.mem_cons, List.not_mem_nil, or_false] at hc
    rcases hc with rfl | rfl | rfl <;> exact ⟨by decide, by simp [IsClosing]⟩
  exact ⟨c, more ++ rest, by rw [List.cons_append, skip_cons hopens.1], hopens.2⟩

section Items

variable {α β : Type} {item : Text → Option (α × Text)} {opening closing : Char}
  {write : β → Text} {value : β → α}

theorem readItems_skip (hskip : SkipsBlanks item) {s t : Text} (h : skip s = skip t) (n : Nat) :
    readItems item closing n s = readItems item closing n t := by
  cases n with
  | zero => rfl
  | succ n => rw [readItems, readItems, hskip s t h]

theorem joinWith_cons_cons (gap t u : Text) (items : List Text) :
    Text.joinWith gap (t :: u :: items) = t ++ gap ++ Text.joinWith gap (u :: items) :=
  List.intercalate_cons_cons

/-- A list is no shorter than the gaps in it. -/
theorem length_le_joinWith {gap : Text} (hgap : gap ≠ []) :
    ∀ items : List Text, items.length ≤ (Text.joinWith gap items).length + 1
  | [] => Nat.zero_le _
  | [t] => Nat.le_add_left 1 _
  | t :: u :: items => by
    have ih := length_le_joinWith hgap (u :: items)
    have hpos := List.length_pos_iff.mpr hgap
    rw [joinWith_cons_cons]
    simp only [List.length_append, List.length_cons] at ih ⊢
    omega

/-- A list is no shorter than each of its items. -/
theorem length_le_of_mem_joinWith (gap : Text) :
    ∀ {items : List Text} {t : Text}, t ∈ items → t.length ≤ (Text.joinWith gap items).length
  | [u], t, h => by
    obtain rfl := List.mem_singleton.mp h
    simp [Text.joinWith]
  | u :: v :: items, t, h => by
    rw [joinWith_cons_cons]
    simp only [List.length_append]
    rcases List.mem_cons.mp h with rfl | h
    · omega
    · have ih := length_le_of_mem_joinWith gap h
      omega

theorem length_lt_renderItems {items : List Text} {t : Text} (h : t ∈ items) (depth : Nat) :
    t.length < (renderItems opening closing depth items).length := by
  have hle := length_le_of_mem_joinWith (',' :: newLine (depth + 1)) h
  rw [renderItems, if_neg (List.ne_nil_of_mem h)]
  simp only [List.length_append, List.length_cons]
  omega

/-- One item after the other, up to the closing bracket. -/
theorem readItems_joinWith (hskip : SkipsBlanks item) (hclosing : IsClosing closing) (depth : Nat)
    (rest : Text) {later : List β} :
    ∀ {first : β} {n : Nat}, (∀ b ∈ first :: later, IsWritten item (write b) (value b)) →
      later.length < n →
      readItems item closing n
          (Text.joinWith (',' :: newLine (depth + 1)) ((first :: later).map write) ++
            (newLine depth ++ closing :: rest))
        = some ((first :: later).map value, rest) := by
  induction later with
  | nil =>
    intro first n h hn
    obtain ⟨n, rfl⟩ := Nat.exists_eq_add_of_lt hn
    have hfirst := h first List.mem_cons_self
    simp [Text.joinWith, readItems, hfirst.reads, skip_newLine, skip_cons hclosing.not_blank]
  | cons second later ih =>
    intro first n h hn
    obtain ⟨n, rfl⟩ := Nat.exists_eq_add_of_lt hn
    have hfirst := h first List.mem_cons_self
    have hlater := ih (n := (second :: later).length + n)
      (fun b hb => h b (List.mem_cons_of_mem _ hb))
      (by simp only [List.length_cons]; omega)
    rw [List.map_cons, List.map_cons, joinWith_cons_cons, ← List.map_cons]
    simp only [List.append_assoc, List.cons_append, readItems, hfirst.reads, Option.bind_some]
    rw [skip_cons (by decide)]
    simp only [if_neg (Ne.symm hclosing.ne_comma), if_true]
    rw [readItems_skip hskip (skip_newLine _ _), hlater]
    rfl

/-- **Items between brackets are read back**, at any depth and whatever comes after them. -/
theorem readSeq_renderItems (hskip : SkipsBlanks item) (hclosing : IsClosing closing)
    (opening : Char) (depth : Nat) {items : List β}
    (h : ∀ b ∈ items, IsWritten item (write b) (value b)) :
    ∃ body, renderItems opening closing depth (items.map write) = opening :: body ∧
      ∀ rest, readSeq item closing (body ++ rest) = some (items.map value, rest) := by
  cases items with
  | nil =>
    refine ⟨[closing], rfl, fun rest => ?_⟩
    rw [List.singleton_append, readSeq, skip_cons hclosing.not_blank]
    simp
  | cons first later =>
    let joined := Text.joinWith (',' :: newLine (depth + 1)) ((first :: later).map write)
    refine ⟨newLine (depth + 1) ++ (joined ++ (newLine depth ++ [closing])), ?_, fun rest => ?_⟩
    · rw [renderItems, if_neg (by simp)]
      simp only [List.cons_append, List.append_assoc, joined]
    have hread := readItems_joinWith hskip hclosing depth rest h
      (n := (newLine (depth + 1) ++ (joined ++ (newLine depth ++ [closing])) ++ rest).length) (by
        have hlen := length_le_joinWith (List.cons_ne_nil ',' (newLine (depth + 1)))
          ((first :: later).map write)
        simp only [List.length_append, List.length_map, List.length_cons, joined] at hlen ⊢
        omega)
    -- The reader looks for a closing bracket first, and finds the start of the first item.
    obtain ⟨more, hjoined⟩ : ∃ more, joined = write first ++ more := by
      cases later with
      | nil => exact ⟨[], by simp [joined, Text.joinWith]⟩
      | cons second later =>
        exact ⟨_, (joinWith_cons_cons _ _ _ _).trans (List.append_assoc _ _ _)⟩
    obtain ⟨c, tail, htail, hc⟩ := (h first List.mem_cons_self).skip
      (more ++ (newLine depth ++ closing :: rest))
    have hlook : skip (newLine (depth + 1) ++ (joined ++ (newLine depth ++ [closing])) ++ rest)
        = c :: tail := by
      rw [List.append_assoc, skip_newLine, hjoined, ← htail]
      simp only [List.append_assoc, List.singleton_append]
    rw [readSeq, hlook]
    simp only [if_neg (fun e : c = closing => hc (e ▸ hclosing))]
    rw [← hread]
    refine readItems_skip hskip ?_ _
    rw [List.append_assoc, skip_newLine]
    simp only [joined, List.append_assoc, List.singleton_append]

end Items

/-! ## 5. Values -/

/-- A written form says a value: it is read back in any place, as soon as the reader goes deep
enough. -/
def ReadsAs (written : Text) (v : Json) : Prop :=
  ∀ n, written.length ≤ n → IsWritten (readValue n) written v

/-- The first character that is no blank tells what kind of value it is. -/
theorem readValue_succ (n : Nat) (t : Text) :
    readValue (n + 1) t =
      match skip t with
      | [] => none
      | c :: rest =>
        if c = '"' then (readText rest).map fun r => (.text r.1, r.2)
        else if c = '[' then
          (readSeq (readValue n) ']' rest).map fun r => (.array r.1, r.2)
        else if c = '\x7b' then
          (readSeq (readField (readValue n)) '\x7d' rest).map fun r => (.object r.1, r.2)
        else readPlain (c :: rest) :=
  rfl

theorem skipsBlanks_readValue (n : Nat) : SkipsBlanks (readValue n) := by
  intro s t h
  cases n with
  | zero => rfl
  | succ n => rw [readValue_succ, readValue_succ, h]

theorem skipsBlanks_readField (value : Text → Option (Json × Text)) :
    SkipsBlanks (readField value) := by
  intro s t h
  rw [readField, readField, expect, expect, h]

/-- Nothing is written as no characters, so a reader of any use goes at least one value deep. -/
theorem exists_succ {written : Text} (hne : written ≠ []) {n : Nat} (hn : written.length ≤ n) :
    ∃ m, n = m + 1 :=
  Nat.exists_eq_succ_of_ne_zero fun h => hne (List.length_eq_zero_iff.mp (by omega))

/-- A text says itself. -/
theorem readsAs_renderText (t : Text) : ReadsAs (renderText t) (.text t) := by
  intro n hn
  refine ⟨⟨'"', _, rfl, by simp⟩, fun rest => ?_⟩
  obtain ⟨n, rfl⟩ := exists_succ (List.cons_ne_nil _ _) hn
  have hread := readText_escaped t rest
  rw [renderText, List.cons_append, List.cons_append, List.append_assoc, List.singleton_append,
    readValue_succ, skip_cons (by decide)]
  simp [hread]

/-- A key with its value is a field. -/
theorem isWritten_renderField (key : String) {written : Text} {v : Json} {n : Nat}
    (h : IsWritten (readValue n) written v) :
    IsWritten (readField (readValue n)) (renderField key written) (key.toList, v) := by
  refine ⟨⟨'"', _, rfl, by simp⟩, fun rest => ?_⟩
  have hkey := readText_escaped key.toList (':' :: ' ' :: (written ++ rest))
  have hvalue : readValue n (' ' :: (written ++ rest)) = some (v, rest) := by
    rw [skipsBlanks_readValue n (' ' :: (written ++ rest)) (written ++ rest)
      (skip_append (List.forall_mem_singleton.mpr (show isBlank ' ' = true by decide)) _), h.reads]
  simp only [renderField, renderText, List.cons_append, List.append_assoc, List.nil_append,
    readField, expect]
  rw [skip_cons (by decide)]
  simp only [if_true, Option.bind_some, hkey]
  rw [skip_cons (by decide)]
  simp [hvalue]

/-- A reader that goes deep enough for a list goes one deeper than each of its items needs. -/
theorem exists_inner {opening closing : Char} {depth : Nat} {items : List Text} {n : Nat}
    (hn : (renderItems opening closing depth items).length ≤ n) :
    ∃ m, n = m + 1 ∧ ∀ t ∈ items, t.length ≤ m := by
  have hne : renderItems opening closing depth items ≠ [] := by
    rw [renderItems]
    split <;> simp
  obtain ⟨m, rfl⟩ := exists_succ hne hn
  exact ⟨m, rfl, fun t ht =>
    Nat.le_of_lt_succ (Nat.lt_of_lt_of_le (length_lt_renderItems ht depth) hn)⟩

/-- A list says the values of its items. -/
theorem readsAs_array (depth : Nat) {β : Type} {write : β → Text} {value : β → Json}
    {items : List β} (h : ∀ b ∈ items, ReadsAs (write b) (value b)) :
    ReadsAs (renderItems '[' ']' depth (items.map write)) (.array (items.map value)) := by
  intro n hn
  obtain ⟨n, rfl, hinner⟩ := exists_inner hn
  have hitems : ∀ b ∈ items, IsWritten (readValue n) (write b) (value b) := fun b hb =>
    h b hb n (hinner _ (List.mem_map_of_mem hb))
  obtain ⟨body, hbody, hread⟩ :=
    readSeq_renderItems (skipsBlanks_readValue n) (.inl rfl) '[' depth hitems
  rw [hbody]
  refine ⟨⟨'[', _, rfl, by simp⟩, fun rest => ?_⟩
  rw [List.cons_append, readValue_succ, skip_cons (by decide)]
  simp [hread]

/-- An object says its keys and the values of its fields. -/
theorem readsAs_object (depth : Nat) (fields : List (String × Text × Json))
    (h : ∀ f ∈ fields, ReadsAs f.2.1 f.2.2) :
    ReadsAs (renderItems '\x7b' '\x7d' depth (fields.map fun f => renderField f.1 f.2.1))
      (.object (fields.map fun f => (f.1.toList, f.2.2))) := by
  intro n hn
  obtain ⟨n, rfl, hinner⟩ := exists_inner hn
  have hfields : ∀ f ∈ fields, IsWritten (readField (readValue n)) (renderField f.1 f.2.1)
      (f.1.toList, f.2.2) := by
    intro f hf
    refine isWritten_renderField f.1 (h f hf n (Nat.le_trans ?_ (hinner _
      (List.mem_map_of_mem hf))))
    simp only [renderField, List.length_append]
    omega
  obtain ⟨body, hbody, hread⟩ :=
    readSeq_renderItems (skipsBlanks_readField _) (.inr rfl) '\x7b' depth hfields
  rw [hbody]
  refine ⟨⟨'\x7b', _, rfl, by simp⟩, fun rest => ?_⟩
  rw [List.cons_append, readValue_succ, skip_cons (by decide)]
  simp [hread]

end Json

namespace CompileEntry

open Json

/-! ## 6. Compilation databases -/

/-- What an entry says: its three fields, each once and in this order. -/
def json (e : CompileEntry) : Json :=
  .object [("directory".toList, .text e.directory), ("file".toList, .text e.file),
    ("arguments".toList, .array (e.arguments.map .text))]

theorem readsAs_render (e : CompileEntry) : ReadsAs e.render e.json := by
  have hfields := readsAs_object 1 [
    ("directory", renderText e.directory, .text e.directory),
    ("file", renderText e.file, .text e.file),
    ("arguments", renderItems '[' ']' 2 (e.arguments.map renderText),
      .array (e.arguments.map .text))]
  refine hfields fun f hf => ?_
  simp only [List.mem_cons, List.not_mem_nil, or_false] at hf
  rcases hf with rfl | rfl | rfl
  · exact readsAs_renderText e.directory
  · exact readsAs_renderText e.file
  · exact readsAs_array 2 fun t _ => readsAs_renderText t

/-- **The written form of the entries says the entries.** -/
theorem parse_renderAll (es : List CompileEntry) :
    Json.parse (renderAll es) = some (.array (es.map json)) := by
  have hreads : ReadsAs (renderAll es) (.array (es.map json)) :=
    readsAs_array 0 fun e _ => readsAs_render e
  have hread := (hreads _ (Nat.le_refl _)).reads []
  rw [List.append_nil] at hread
  rw [Json.parse, hread]
  rfl

theorem json_injective {e e' : CompileEntry} (h : e.json = e'.json) : e = e' := by
  obtain ⟨directory, file, arguments⟩ := e
  obtain ⟨directory', file', arguments'⟩ := e'
  simp only [json, Json.object.injEq, List.cons.injEq, Prod.mk.injEq, true_and, and_true,
    Json.text.injEq, Json.array.injEq] at h
  obtain ⟨rfl, rfl, harguments⟩ := h
  rw [(List.map_inj_right fun _ _ => Json.text.inj).mp harguments]

/-- Different entries have different written forms. -/
theorem renderAll_injective {es es' : List CompileEntry} (h : renderAll es = renderAll es') :
    es = es' := by
  have hparse := parse_renderAll es
  rw [h, parse_renderAll es'] at hparse
  exact ((List.map_inj_right fun _ _ => json_injective).mp
    (Json.array.inj (Option.some.inj hparse))).symm

/-- A line break, or a printable ASCII character. -/
def IsPlain (c : Char) : Prop := c = '\n' ∨ 0x20 ≤ c.toNat ∧ c.toNat ≤ 0x7E

instance (c : Char) : Decidable (IsPlain c) := inferInstanceAs (Decidable (_ ∨ _))

theorem isPlain_hexDigits (width n : Nat) : ∀ c ∈ Text.hexDigits width n, IsPlain c := by
  have hdigit : ∀ n < 16, IsPlain (Nat.digitChar n) := by decide
  induction width generalizing n with
  | zero => simp [Text.hexDigits]
  | succ width ih =>
    intro c hc
    rcases List.mem_append.mp hc with hc | hc
    · exact ih (n / 16) c hc
    · rw [List.mem_singleton.mp hc]
      exact hdigit _ (Nat.mod_lt n (by decide))

theorem isPlain_unitEscape (n : Nat) : ∀ c ∈ unitEscape n, IsPlain c :=
  List.forall_mem_cons.mpr ⟨by decide,
    List.forall_mem_cons.mpr ⟨by decide, isPlain_hexDigits 4 n⟩⟩

theorem isPlain_escapeChar (c : Char) : ∀ d ∈ escapeChar c, IsPlain d := by
  rcases escapeChar_cases c with ⟨letter, he, hshort⟩ | ⟨⟨-, -, hlow, hhigh⟩, he⟩ | ⟨-, he⟩ |
    ⟨-, he⟩ <;> rw [he]
  · have hletters : ∀ e ∈ shortEscapes, IsPlain e.1 := by decide
    obtain ⟨before, after, heq, -⟩ := List.lookup_eq_some_iff.mp hshort
    have hletter := hletters (letter, c) (heq ▸ by simp)
    exact List.forall_mem_cons.mpr ⟨by decide, by simpa using hletter⟩
  · simpa using .inr ⟨hlow, Nat.le_of_lt_succ hhigh⟩
  · exact isPlain_unitEscape _
  · exact List.forall_mem_append.mpr ⟨isPlain_unitEscape _, isPlain_unitEscape _⟩

theorem isPlain_renderText (t : Text) : ∀ c ∈ renderText t, IsPlain c := by
  intro c hc
  simp only [renderText, List.cons_append, List.mem_cons, List.mem_append, List.mem_flatMap,
    List.not_mem_nil, or_false] at hc
  rcases hc with rfl | ⟨d, -, hc⟩ | rfl
  · decide
  · exact isPlain_escapeChar d c hc
  · decide

theorem isPlain_newLine (depth : Nat) : ∀ c ∈ newLine depth, IsPlain c := by
  refine List.forall_mem_cons.mpr ⟨by decide, fun c hc => ?_⟩
  rw [(List.mem_replicate.mp hc).2]
  decide

theorem isPlain_joinWith {gap : Text} (hgap : ∀ c ∈ gap, IsPlain c) :
    ∀ {items : List Text}, (∀ t ∈ items, ∀ c ∈ t, IsPlain c) →
      ∀ c ∈ Text.joinWith gap items, IsPlain c
  | [], _ => by simp [Text.joinWith]
  | [t], h => by simpa [Text.joinWith] using h
  | t :: u :: items, h => by
    obtain ⟨ht, hitems⟩ := List.forall_mem_cons.mp h
    rw [joinWith_cons_cons]
    exact List.forall_mem_append.mpr ⟨List.forall_mem_append.mpr ⟨ht, hgap⟩,
      isPlain_joinWith hgap hitems⟩

theorem isPlain_renderItems {opening closing : Char} (hopening : IsPlain opening)
    (hclosing : IsPlain closing) (depth : Nat) {items : List Text}
    (h : ∀ t ∈ items, ∀ c ∈ t, IsPlain c) :
    ∀ c ∈ renderItems opening closing depth items, IsPlain c := by
  have hgap : ∀ c ∈ ',' :: newLine (depth + 1), IsPlain c :=
    List.forall_mem_cons.mpr ⟨by decide, isPlain_newLine _⟩
  unfold renderItems
  split
  · simp [hopening, hclosing]
  · simp only [List.cons_append, List.forall_mem_cons, List.forall_mem_append]
    exact ⟨hopening, ⟨⟨isPlain_newLine _, isPlain_joinWith hgap h⟩, isPlain_newLine _⟩, hclosing,
      by simp⟩

theorem isPlain_renderField (key : String) {value : Text} (h : ∀ c ∈ value, IsPlain c) :
    ∀ c ∈ renderField key value, IsPlain c := by
  have hcolon : ∀ c ∈ [':', ' '], IsPlain c :=
    List.forall_mem_cons.mpr ⟨by decide, List.forall_mem_singleton.mpr (by decide)⟩
  exact List.forall_mem_append.mpr ⟨List.forall_mem_append.mpr ⟨isPlain_renderText _, hcolon⟩, h⟩

theorem isPlain_render (e : CompileEntry) : ∀ c ∈ e.render, IsPlain c := by
  refine isPlain_renderItems (by decide) (by decide) 1 fun t ht => ?_
  simp only [List.mem_cons, List.not_mem_nil, or_false] at ht
  rcases ht with rfl | rfl | rfl
  · exact isPlain_renderField _ (isPlain_renderText _)
  · exact isPlain_renderField _ (isPlain_renderText _)
  · exact isPlain_renderField _ (isPlain_renderItems (by decide) (by decide) 2
      (List.forall_mem_map.mpr fun t _ => isPlain_renderText t))

/-- **The written form of the entries is ASCII.** -/
theorem isPlain_renderAll (es : List CompileEntry) : ∀ c ∈ renderAll es, IsPlain c :=
  isPlain_renderItems (by decide) (by decide) 0
    (List.forall_mem_map.mpr fun e _ => isPlain_render e)

end CompileEntry

end CompileJournal
