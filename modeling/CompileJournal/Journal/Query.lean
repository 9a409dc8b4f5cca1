import CompileJournal.Journal.Transaction

/-!
# Statements

A statement has to be understood before it runs, which takes the table to be there: in the
schema that the connection remembers, or in the one it reads when it remembers none or finds that
another one holds by now.  A statement that was understood once runs without that until it meets
a database without the table.

* `World.understand`: what happens before a statement runs for the first time;
* `World.readRows`, `World.putRow`: the statements of a store;
* `World.makeTable`, `World.dropTable`: making and removing the table.
-/

namespace CompileJournal.World

/-- Reads which tables there are. -/
def readSchema (w : World) (c : Connection) : Turn Schema :=
  match w.beginRead c with
  | ⟨w, c, .error f⟩ => ⟨w, c, .error f⟩
  | ⟨w, c, .ok seen⟩ =>
    let schema := Image.schema seen
    ⟨w, c.remember { c.memory with schema := some schema }, .ok schema⟩

/-- Understands a statement if the table is in the schema. -/
def learnFrom (w : World) (c : Connection) (q : Query) (s : Schema) : Turn Unit :=
  if s.hasTable then ⟨w, c.remember (c.memory.learn q), .ok ()⟩ else ⟨w, c, .error .noTable⟩

/-- Understands a statement with a schema that was read just now. -/
def learnAnew (w : World) (c : Connection) (q : Query) : Turn Unit :=
  match w.readSchema c with
  | ⟨w, c, .error f⟩ => ⟨w, c, .error f⟩
  | ⟨w, c, .ok s⟩ => w.learnFrom c q s

/-- Understands a statement.  If the remembered schema lacks the table, it is read again, but a
fault in doing so goes unnoticed. -/
def understand (w : World) (c : Connection) (q : Query) : Turn Unit :=
  if q ∈ c.memory.ready then ⟨w, c, .ok ()⟩
  else match c.memory.schema with
    | none => w.learnAnew c q
    | some s =>
      if s.hasTable then w.learnFrom c q s
      else match w.beginRead c with
        | ⟨w, c, .error _⟩ => ⟨w, c, .error .noTable⟩
        | ⟨w, c, .ok seen⟩ =>
          if (Image.schema seen).revision = s.revision then ⟨w, c, .error .noTable⟩
          else w.learnAnew c q

/-- Checks that the image in front of a statement has the table, and gives the rows. -/
def rowsOf (w : World) (c : Connection) (q : Query) (seen : Option Image) : Turn Table :=
  let m := { c.memory with schema := some (Image.schema seen) }
  match seen.bind Image.table with
  | none => ⟨w, c.remember (m.forget q), .error .noTable⟩
  | some rows => ⟨w, c.remember m, .ok rows⟩

/-- The rows of a database, by one of the statements that read. -/
def readRows (w : World) (c : Connection) (q : Query) : Turn Table :=
  match w.understand c q with
  | ⟨w, c, .error f⟩ => ⟨w, c, .error f⟩
  | ⟨w, c, .ok ()⟩ =>
    match w.beginRead c with
    | ⟨w, c, .error f⟩ => ⟨w, c, .error f⟩
    | ⟨w, c, .ok seen⟩ => w.rowsOf c q seen

/-- Adds a row to a database, in place of an earlier one of its file. -/
def putRow (w : World) (c : Connection) (r : Row) : Turn Unit :=
  match w.understand c .put with
  | ⟨w, c, .error f⟩ => ⟨w, c, .error f⟩
  | ⟨w, c, .ok ()⟩ =>
    match w.beginWrite c false with
    | ⟨w, c, .error f⟩ => ⟨w, c, .error f⟩
    | ⟨w, c, .ok seen⟩ =>
      match w.rowsOf c .put seen, seen with
      | ⟨w, c, .ok rows⟩, some i => w.keep c seen (i.withRows (!c.memory.isLogging) (rows.put r))
      | ⟨w, c, .error f⟩, _ => ⟨w.giveUp c seen, c, .error f⟩
      | ⟨w, c, .ok _⟩, none => ⟨w, c, .error .noTable⟩

/-- Makes the table of a database that has none. -/
def makeTable (w : World) (c : Connection) : Turn Unit :=
  match w.readSchema c with
  | ⟨w, c, .error f⟩ => ⟨w, c, .error f⟩
  | ⟨w, c, .ok s⟩ =>
    if s.hasTable then ⟨w, c, .ok ()⟩
    else match w.beginWrite c false with
      | ⟨w, c, .error f⟩ => ⟨w, c, .error f⟩
      | ⟨w, c, .ok seen⟩ => w.keep c seen (Image.withTable seen (some []))

/-- Removes the table of a database. -/
def dropTable (w : World) (c : Connection) : Turn Unit :=
  match w.readSchema c with
  | ⟨w, c, .error f⟩ => ⟨w, c, .error f⟩
  | ⟨w, c, .ok s⟩ =>
    if !s.hasTable then ⟨w, c, .error .noTable⟩
    else match w.beginWrite c false with
      | ⟨w, c, .error f⟩ => ⟨w, c, .error f⟩
      | ⟨w, c, .ok seen⟩ => w.keep c seen (Image.withTable seen none)

end CompileJournal.World
