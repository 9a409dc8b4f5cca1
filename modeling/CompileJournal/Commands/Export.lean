import CompileJournal.Commands.Record

/-!
# Exporting the journal

All records as a compilation database: a JSON list with the directory, the file and the argument
list of each compile, in the order of the files.  The text is ASCII only; the rows are read
before the output is opened, so a journal that cannot be read leaves the output as it was.
-/

namespace CompileJournal

/-- One compile in a compilation database. -/
structure CompileEntry where
  directory : Text
  file : Text
  arguments : List Text
  deriving DecidableEq, Repr

namespace CompileEntry

/-- The entry of a record: the compiler, its flags and the file itself. -/
def ofRecord (r : Record) : CompileEntry := ⟨r.workdir, r.file, r.driver :: r.flags ++ [r.file]⟩

/-! ## 1. The written form -/

/-- One unit of a UTF-16 form as an escape. -/
def unitEscape (n : Nat) : Text := '\\' :: 'u' :: Text.hexDigits 4 n

/-- A character inside a JSON text. -/
def escapeChar (c : Char) : Text :=
  if c = '"' then ['\\', '"']
  else if c = '\\' then ['\\', '\\']
  else if c = '\n' then ['\\', 'n']
  else if c = '\r' then ['\\', 'r']
  else if c = '\t' then ['\\', 't']
  else if c = '\x0c' then ['\\', 'f']
  else if c = '\x08' then ['\\', 'b']
  else if 0x20 ≤ c.toNat ∧ c.toNat < 0x7F then [c]
  else if c.toNat < 0x10000 then unitEscape c.toNat
  else
    let n := c.toNat - 0x10000
    unitEscape (0xD800 + n / 0x400) ++ unitEscape (0xDC00 + n % 0x400)

/-- A text as JSON. -/
def renderText (t : Text) : Text := '"' :: t.flatMap escapeChar ++ ['"']

/-- A line break and the blanks of a nesting depth. -/
def newLine (depth : Nat) : Text := '\n' :: List.replicate (2 * depth) ' '

/-- Written items between two brackets, one to a line, at a nesting depth. -/
def renderItems (opening closing : Char) (depth : Nat) (items : List Text) : Text :=
  if items = [] then [opening, closing]
  else opening :: newLine (depth + 1) ++ Text.joinWith (',' :: newLine (depth + 1)) items ++
    newLine depth ++ [closing]

/-- A key and its written value. -/
def renderField (key : String) (value : Text) : Text :=
  renderText key ++ [':', ' '] ++ value

/-- An entry as JSON inside the list. -/
def render (e : CompileEntry) : Text :=
  renderItems '\x7b' '\x7d' 1 [
    renderField "directory" (renderText e.directory),
    renderField "file" (renderText e.file),
    renderField "arguments" (renderItems '[' ']' 2 (e.arguments.map renderText))]

/-- A list of entries as JSON. -/
def renderAll (es : List CompileEntry) : Text := renderItems '[' ']' 0 (es.map render)

end CompileEntry

/-! ## 2. The operations -/

/-- The entries of all records. -/
def entries (w : World) (s : Store) : World × Except Failure (List CompileEntry) :=
  let r := s.records w
  (r.1, r.2.map (·.map CompileEntry.ofRecord))

/-- Writes the entries of all records to a path and gives their number. -/
def exportTo (w : World) (s : Store) (path : Text) : Outcome Nat :=
  match entries w s with
  | (w, .error e) => ⟨w, [], .error e⟩
  | (w, .ok es) =>
    match w.writeText path (CompileEntry.renderAll es) with
    | .error e => ⟨w, [], .error e⟩
    | .ok w => ⟨w, [.wrote es.length path], .ok es.length⟩

end CompileJournal
