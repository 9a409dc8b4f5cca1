/-
# Text

A text is the list of its characters.  Command-line tokens, paths and the cells of the
journal are all texts, so each operation on them is a recursion on characters.

* `Text.byteCount`: the length of the UTF-8 form, which is what the limits on names and
  paths count;
* `Text.cut`: the part before the first occurrence of a character and the part after it.
-/

namespace CompileJournal

/-- A text is the list of its characters. -/
abbrev Text := List Char

/-- A literal stands for its characters. -/
instance : Coe String Text := ⟨String.toList⟩

namespace Text

/-- How many bytes the UTF-8 form of a text takes. -/
def byteCount (t : Text) : Nat := t.foldr (fun c n => c.utf8Size + n) 0

/-- The text before the first `c`, and the text after it if there is a `c` at all. -/
def cut (c : Char) : Text → Text × Option Text
  | [] => ([], none)
  | d :: rest =>
    if d = c then ([], some rest)
    else let r := cut c rest; (d :: r.1, r.2)

/-- Whether `start` is what `t` begins with. -/
def beginsWith (t start : Text) : Bool := start.isPrefixOf t

/-- Texts one after the other with `gap` between neighbours. -/
def joinWith (gap : Text) (ts : List Text) : Text := gap.intercalate ts

/-- The lower-case form of the ASCII letters; every other character stays. -/
def asciiLower (t : Text) : Text := t.map Char.toLower

/-- The character with code 0, which no path of the file system can hold. -/
def nul : Char := '\x00'

end Text

end CompileJournal
