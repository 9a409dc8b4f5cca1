import CompileJournal.Text.Basic

/-!
# Reading words as the shell does

A line is read from left to right into words.  Blanks separate words; quotes and backslashes
are removed; between single quotes every character stands for itself, between double quotes
a backslash takes its meaning away from a double quote or a backslash and otherwise stands
for itself.  Reading fails where the line ends inside quotes or right after a backslash.
-/

namespace CompileJournal.Words

/-- Why a line is not a sequence of words. -/
inductive DecodeError where
  /-- The line ends between quotes. -/
  | noClosingQuotation
  /-- The line ends after a backslash that still needs a character. -/
  | noEscapedCharacter
  deriving DecidableEq, Repr

/-- The text of the error. -/
def DecodeError.message : DecodeError → Text
  | noClosingQuotation => "No closing quotation"
  | noEscapedCharacter => "No escaped character"

/-- The characters that separate words. -/
def isBlank (c : Char) : Bool := c = ' ' || c = '\t' || c = '\r' || c = '\n'

/-- Where reading stands: between two words, or inside one, whose characters so far are kept
last first. -/
inductive Position where
  | between
  | bare (word : Text)
  | escaped (word : Text)
  | single (word : Text)
  | double (word : Text)
  | doubleEscaped (word : Text)

/-- The words from a position to the end of the line. -/
def scan : Position → Text → Except DecodeError (List Text)
  | .between, [] => .ok []
  | .bare word, [] => .ok [word.reverse]
  | .escaped _, [] => .error .noEscapedCharacter
  | .single _, [] => .error .noClosingQuotation
  | .double _, [] => .error .noClosingQuotation
  | .doubleEscaped _, [] => .error .noEscapedCharacter
  | .between, c :: rest =>
    if isBlank c then scan .between rest
    else if c = '\\' then scan (.escaped []) rest
    else if c = '\'' then scan (.single []) rest
    else if c = '"' then scan (.double []) rest
    else scan (.bare [c]) rest
  | .bare word, c :: rest =>
    if isBlank c then (scan .between rest).map (word.reverse :: ·)
    else if c = '\\' then scan (.escaped word) rest
    else if c = '\'' then scan (.single word) rest
    else if c = '"' then scan (.double word) rest
    else scan (.bare (c :: word)) rest
  | .escaped word, c :: rest => scan (.bare (c :: word)) rest
  | .single word, c :: rest =>
    if c = '\'' then scan (.bare word) rest else scan (.single (c :: word)) rest
  | .double word, c :: rest =>
    if c = '"' then scan (.bare word) rest
    else if c = '\\' then scan (.doubleEscaped word) rest
    else scan (.double (c :: word)) rest
  | .doubleEscaped word, c :: rest =>
    if c = '"' ∨ c = '\\' then scan (.double (c :: word)) rest
    else scan (.double (c :: '\\' :: word)) rest

/-- The words of a line. -/
def decode (line : Text) : Except DecodeError (List Text) := scan .between line

end CompileJournal.Words
