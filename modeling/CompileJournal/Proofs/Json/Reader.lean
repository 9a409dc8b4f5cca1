import CompileJournal.Text.Basic

/-!
# Reading JSON

What a JSON text says, told by a reader that knows nothing of how the journal writes its
compilation databases: blanks may stand wherever JSON allows them, a character may be written by
itself or by any of its escapes, and all kinds of values are known.  A text between quotes is read
as UTF-16 units first, which are then put together, since the escapes of a character above U+FFFF
write the two halves of its UTF-16 form.  A half that stands alone is no character and is refused.

* `Json`: what a JSON text can say;
* `Json.readText`: a text between quotes;
* `Json.readSeq`: items with commas between them, up to a closing bracket;
* `Json.parse`: the value that a whole text says.
-/

namespace CompileJournal

/-- What a JSON text says.  A number stays as it is written, and so does the order of fields. -/
inductive Json where
  | null
  | bool (b : Bool)
  | number (written : Text)
  | text (t : Text)
  | array (items : List Json)
  | object (fields : List (Text × Json))

namespace Json

/-! ## 1. Blanks -/

/-- Whether a character may stand between the parts of a value. -/
def isBlank (c : Char) : Bool := c ∈ [' ', '\n', '\r', '\t']

/-- The text from its first character on that is no blank. -/
def skip (t : Text) : Text := t.dropWhile isBlank

/-- What comes after a mark, which blanks may come before. -/
def expect (mark : Char) (t : Text) : Option Text :=
  match skip t with
  | [] => none
  | c :: rest => if c = mark then some rest else none

/-! ## 2. Texts -/

/-- The UTF-16 units of a character. -/
def utf16 (c : Char) : List Nat :=
  if c.toNat < 0x10000 then [c.toNat]
  else [0xD800 + (c.toNat - 0x10000) / 0x400, 0xDC00 + (c.toNat - 0x10000) % 0x400]

/-- The characters that letters stand for behind a backslash. -/
def shortEscapes : List (Char × Char) := [
  ('"', '"'), ('\\', '\\'), ('/', '/'), ('b', '\x08'), ('f', '\x0c'), ('n', '\n'), ('r', '\r'),
  ('t', '\t')]

/-- The value of a hexadecimal digit. -/
def hexValue? (c : Char) : Option Nat :=
  if '0' ≤ c ∧ c ≤ '9' then some (c.toNat - '0'.toNat)
  else if 'a' ≤ c ∧ c ≤ 'f' then some (10 + (c.toNat - 'a'.toNat))
  else if 'A' ≤ c ∧ c ≤ 'F' then some (10 + (c.toNat - 'A'.toNat))
  else none

/-- The number that hexadecimal digits write. -/
def hexNumber? (digits : Text) : Option Nat :=
  digits.foldlM (fun n c => (hexValue? c).map (16 * n + ·)) 0

/-- The UTF-16 units up to the closing quote. -/
def readUnits : Text → Option (List Nat × Text)
  | [] => none
  | c :: rest =>
    if c = '"' then some ([], rest)
    else if c = '\\' then
      match rest with
      | [] => none
      | letter :: rest =>
        if letter = 'u' then
          match rest with
          | h₁ :: h₂ :: h₃ :: h₄ :: rest =>
            (hexNumber? [h₁, h₂, h₃, h₄]).bind fun n =>
              (readUnits rest).map fun r => (n :: r.1, r.2)
          | _ => none
        else
          (shortEscapes.lookup letter).bind fun d =>
            (readUnits rest).map fun r => (utf16 d ++ r.1, r.2)
    else if c.toNat < 0x20 then none
    else (readUnits rest).map fun r => (utf16 c ++ r.1, r.2)

/-- The text of UTF-16 units. -/
def decodeUnits : List Nat → Option Text
  | [] => some []
  | n :: rest =>
    if 0xD800 ≤ n ∧ n < 0xDC00 then
      match rest with
      | [] => none
      | m :: rest =>
        if 0xDC00 ≤ m ∧ m < 0xE000 then
          (decodeUnits rest).map
            (Char.ofNat (0x10000 + 0x400 * (n - 0xD800) + (m - 0xDC00)) :: ·)
        else none
    else if 0xDC00 ≤ n ∧ n < 0xE000 then none
    else (decodeUnits rest).map (Char.ofNat n :: ·)

/-- The text up to the closing quote. -/
def readText (t : Text) : Option (Text × Text) :=
  (readUnits t).bind fun r => (decodeUnits r.1).map fun s => (s, r.2)

/-! ## 3. Numbers and words -/

/-- One of the given characters, if a text starts with one. -/
def readSign (signs : List Char) : Text → Text × Text
  | [] => ([], [])
  | c :: rest => if c ∈ signs then ([c], rest) else ([], c :: rest)

/-- Digits, and at least one. -/
def readDigits (t : Text) : Option (Text × Text) :=
  if t.takeWhile Char.isDigit = [] then none
  else some (t.takeWhile Char.isDigit, t.dropWhile Char.isDigit)

/-- A whole number without zeros in front. -/
def readWhole : Text → Option (Text × Text)
  | [] => none
  | c :: rest => if c = '0' then some ([c], rest) else readDigits (c :: rest)

/-- The part of a number behind a mark, if there is the mark. -/
def readPart (marks signs : List Char) : Text → Option (Text × Text)
  | [] => some ([], [])
  | c :: rest =>
    if c ∈ marks then
      let sign := readSign signs rest
      (readDigits sign.2).map fun r => (c :: sign.1 ++ r.1, r.2)
    else some ([], c :: rest)

/-- A number as it is written. -/
def readNumber (t : Text) : Option (Text × Text) :=
  let sign := readSign ['-'] t
  (readWhole sign.2).bind fun whole =>
    (readPart ['.'] [] whole.2).bind fun fraction =>
      (readPart ['e', 'E'] ['+', '-'] fraction.2).map fun power =>
        (sign.1 ++ whole.1 ++ fraction.1 ++ power.1, power.2)

/-- A word that stands for a value. -/
def readWord (word : Text) (v : Json) (t : Text) : Option (Json × Text) :=
  if Text.beginsWith t word then some (v, t.drop word.length) else none

/-- A value that is no text and holds no other values. -/
def readPlain (t : Text) : Option (Json × Text) :=
  readWord "null" .null t <|> readWord "true" (.bool true) t <|>
    readWord "false" (.bool false) t <|> (readNumber t).map fun r => (.number r.1, r.2)

/-! ## 4. Values -/

section Items

variable {α : Type} (item : Text → Option (α × Text)) (closing : Char)

/-- Items with commas between them, up to the closing bracket, and at most so many. -/
def readItems : Nat → Text → Option (List α × Text)
  | 0, _ => none
  | n + 1, t =>
    (item t).bind fun first =>
      match skip first.2 with
      | [] => none
      | c :: rest =>
        if c = closing then some ([first.1], rest)
        else if c = ',' then
          (readItems n rest).map fun r => (first.1 :: r.1, r.2)
        else none

/-- Items with commas between them, up to the closing bracket, or none at all. -/
def readSeq (t : Text) : Option (List α × Text) :=
  match skip t with
  | [] => none
  | c :: rest =>
    if c = closing then some ([], rest) else readItems item closing t.length t

end Items

/-- A field of an object, with a reader for its value. -/
def readField (value : Text → Option (Json × Text)) (t : Text) : Option ((Text × Json) × Text) :=
  (expect '"' t).bind fun t =>
    (readText t).bind fun key =>
      (expect ':' key.2).bind fun t =>
        (value t).map fun r => ((key.1, r.1), r.2)

/-- A value with at most so many values inside each other. -/
def readValue : Nat → Text → Option (Json × Text)
  | 0, _ => none
  | n + 1, t =>
    match skip t with
    | [] => none
    | c :: rest =>
      if c = '"' then (readText rest).map fun r => (.text r.1, r.2)
      else if c = '[' then
        (readSeq (readValue n) ']' rest).map fun r => (.array r.1, r.2)
      else if c = '\x7b' then
        (readSeq (readField (readValue n)) '\x7d' rest).map fun r => (.object r.1, r.2)
      else readPlain (c :: rest)

/-- **The value that a whole text says.**  No more values than the text has characters can lie
inside each other. -/
def parse (t : Text) : Option Json :=
  (readValue t.length t).bind fun r => if skip r.2 = [] then some r.1 else none

end Json

end CompileJournal
