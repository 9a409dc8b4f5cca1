import CompileJournal.Text.Basic

/-!
# Flags with a value

Some compiler flags take a value.  A spelling is *detached* if its value may be the next token,
as the directory in `-I include`; the value of the other spellings is always part of the token,
as in `-std=c11`.
-/

namespace CompileJournal

/-- Spellings of flags that take a value, each with whether the value may be the next token. -/
abbrev ValueFlags := List (Text × Bool)

namespace ValueFlags

/-- The spellings every compiler driver is taken to know, by what they are about: the output,
the preprocessor, the language and the target, the linker, other tools, and parameters. -/
def standardSpellings : List (String × Bool) :=
  [("-o", true), ("-MF", true), ("-MT", true), ("-MQ", true), ("-aux-info", true)] ++
  [("-D", true), ("-U", true), ("-A", true), ("-I", true), ("-include", true),
    ("-imacros", true), ("-idirafter", true), ("-iprefix", true), ("-iwithprefix", true),
    ("-iwithprefixbefore", true), ("-isystem", true), ("-isysroot", true), ("-iquote", true),
    ("-imultilib", true), ("--sysroot", true)] ++
  [("-x", true), ("-arch", true), ("-target", true), ("--target", true), ("-std", false),
    ("-march", false), ("-mcpu", false)] ++
  [("-L", true), ("-l", true), ("-T", true), ("-u", true), ("-e", true), ("-rpath", true),
    ("-framework", true)] ++
  [("-Xclang", true), ("-Xpreprocessor", true), ("-Xassembler", true), ("-Xlinker", true),
    ("-mllvm", true), ("-Wl,", false), ("-Wa,", false), ("-Wp,", false)] ++
  [("--param", true)]

/-- The table of the standard spellings. -/
def standard : ValueFlags := standardSpellings.map fun s => (s.1.toList, s.2)

/-- The table with one more detached spelling. -/
def add (table : ValueFlags) (spelling : Text) : ValueFlags :=
  (spelling, true) :: table.filter (·.1 ≠ spelling)

/-- The standard spellings and the given detached ones. -/
def withExtra (extra : List Text) : ValueFlags := extra.foldl add standard

/-- Whether a token is a flag whose value is the next token. -/
def isDetached (table : ValueFlags) (token : Text) : Bool := (table.lookup token).getD false

end ValueFlags

end CompileJournal
