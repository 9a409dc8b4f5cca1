import CompileJournal.Text.Printable

/-!
# Quoted text

The form in which a path or a token is shown inside a message: between single quotes, or
between double quotes where the text holds a single quote and no double quote.  A backslash,
the quote in use and every character that is not printable are written as escapes.
-/

namespace CompileJournal.Text

/-- The last `width` hexadecimal digits of `n`, in lower case, with leading zeros. -/
def hexDigits : (width n : Nat) → Text
  | 0, _ => []
  | width + 1, n => hexDigits width (n / 16) ++ [Nat.digitChar (n % 16)]

/-- A character between quotes of the kind `quote`. -/
def quotedChar (quote c : Char) : Text :=
  if c = quote ∨ c = '\\' then ['\\', c]
  else if c = '\n' then ['\\', 'n']
  else if c = '\r' then ['\\', 'r']
  else if c = '\t' then ['\\', 't']
  else if isPrintable c then [c]
  else if c.toNat < 0x100 then ['\\', 'x'] ++ hexDigits 2 c.toNat
  else if c.toNat < 0x10000 then ['\\', 'u'] ++ hexDigits 4 c.toNat
  else ['\\', 'U'] ++ hexDigits 8 c.toNat

/-- A text between quotes, as messages show it. -/
def quoted (t : Text) : Text :=
  let quote := if '\'' ∈ t ∧ '"' ∉ t then '"' else '\''
  quote :: t.flatMap (quotedChar quote) ++ [quote]

/-- A list of texts, as messages show it. -/
def quotedList (ts : List Text) : Text :=
  '[' :: joinWith [',', ' '] (ts.map quoted) ++ [']']

end CompileJournal.Text
