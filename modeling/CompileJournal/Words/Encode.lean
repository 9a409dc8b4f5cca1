import CompileJournal.Text.Basic

/-!
# Writing words for the shell

A list of tokens as one line that a shell reads back as the same tokens.  A token made only
of characters that no shell gives a meaning to stands as it is; any other one, the empty
token included, stands between single quotes, where only the single quote itself needs care:
it is written by closing the quotes, adding it between double quotes and opening them again.
-/

namespace CompileJournal.Words

/-- The characters that need no quotes. -/
def isSafe (c : Char) : Bool := c.isAlphanum || c ∈ "_@%+=:,./-".toList

/-- A character between single quotes. -/
def encodeChar (c : Char) : Text :=
  if c = '\'' then ['\'', '"', '\'', '"', '\''] else [c]

/-- Whether a token can stand without quotes. -/
def isBare (token : Text) : Bool := !token.isEmpty && token.all isSafe

/-- One token as a word. -/
def encodeWord (token : Text) : Text :=
  if isBare token then token else '\'' :: token.flatMap encodeChar ++ ['\'']

/-- A list of tokens as one line, with one space between neighbours. -/
def encode (tokens : List Text) : Text := Text.joinWith [' '] (tokens.map encodeWord)

end CompileJournal.Words
