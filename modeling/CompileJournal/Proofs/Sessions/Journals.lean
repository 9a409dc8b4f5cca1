import CompileJournal.Proofs.Journal.Rows
import CompileJournal.Proofs.Sessions.Steps
import Mathlib.Data.Finmap

/-!
# Stores as finite maps

What a user of stores has in mind: for each database a finite map from files to what was recorded
for them, which all stores open on it share, and for each private store a map of its own.  Recording
sets one entry, reading gives entries, and the map of a database outlives its stores.

* `JournalMap`: the maps, with their lists of records;
* `Journals`, `Journals.Moves`: a machine that answers the steps of a session from maps alone;
* `Table.Shows`: the tables that hold a map.
-/

namespace CompileJournal

/-! ## 1. Maps -/

/-- A finite map from files to what was recorded for them. -/
abbrev JournalMap := Finmap fun _ : Text => Invocation

/-- What is recorded, apart from the file. -/
def Record.invocation (r : Record) : Invocation := ⟨r.driver, r.flags, r.workdir⟩

namespace JournalMap

/-- The map with the entry of one file set. -/
def put (m : JournalMap) (r : Record) : JournalMap := m.insert r.file r.invocation

/-- The entry of a file, as a record. -/
def get (m : JournalMap) (file : Text) : Option Record := (m.lookup file).map (·.recordFor file)

theorem get_empty (file : Text) : get ∅ file = none := by
  rw [get, Finmap.lookup_empty]
  rfl

theorem get_put (m : JournalMap) (r : Record) (file : Text) :
    (m.put r).get file = if r.file = file then some r else m.get file := by
  unfold get put
  split
  · next h =>
    subst h
    rw [Finmap.lookup_insert]
    rfl
  · next h => rw [Finmap.lookup_insert_of_ne _ (Ne.symm h)]

/-- The entries of a map, one for each file, in strictly increasing order of the files. -/
structure Lists (m : JournalMap) (rs : List Record) : Prop where
  sorted : rs.Pairwise fun r r' => r.file < r'.file
  entries : ∀ r, r ∈ rs ↔ m.get r.file = some r

end JournalMap

/-! ## 2. Tables that hold a map -/

/-- A table holds the entries of a map. -/
structure Table.Shows (rows : Table) (m : JournalMap) : Prop where
  sorted : IsSorted rows
  get? : ∀ file, rows.get? file = (m.get file).map Row.ofRecord

namespace Table.Shows

variable {rows : Table} {m : JournalMap}

theorem nil : Table.Shows [] ∅ :=
  ⟨isSorted_nil, fun file => by rw [JournalMap.get_empty]; rfl⟩

/-- **Putting the row of a record sets the entry of its file.** -/
theorem put (h : rows.Shows m) (r : Record) :
    Table.Shows (rows.put (Row.ofRecord r)) (m.put r) := by
  refine ⟨h.sorted.put _, fun file => ?_⟩
  rw [get?_put, JournalMap.get_put, h.get?]
  have hfile : (Row.ofRecord r).file = r.file := rfl
  rw [hfile]
  split
  · rfl
  · rfl

/-- Every table of records in order holds a map. -/
theorem of_records {rs : List Record} (h : IsSorted (rs.map Row.ofRecord)) :
    ∃ m, Table.Shows (rs.map Row.ofRecord) m := by
  induction rs with
  | nil => exact ⟨∅, nil⟩
  | cons r rest ih =>
    obtain ⟨m, hm⟩ := ih (List.pairwise_cons.mp h).2
    refine ⟨m.put r, h, fun file => ?_⟩
    rw [List.map_cons, get?_cons, hm.get?, JournalMap.get_put]
    have hfile : (Row.ofRecord r).file = r.file := rfl
    rw [hfile]
    split
    · rfl
    · rfl

/-- The rows are those of records. -/
theorem exists_records (h : rows.Shows m) : ∃ rs : List Record, rows = rs.map Row.ofRecord := by
  have hrows : ∀ row ∈ rows, ∃ r, row = Row.ofRecord r := by
    intro row hrow
    have hget := h.sorted.get?_eq_some.mpr ⟨hrow, rfl⟩
    rw [h.get?] at hget
    obtain ⟨r, -, hr⟩ := Option.map_eq_some_iff.mp hget
    exact ⟨r, hr.symm⟩
  clear h
  induction rows with
  | nil => exact ⟨[], rfl⟩
  | cons row rest ih =>
    obtain ⟨r, rfl⟩ := hrows row List.mem_cons_self
    obtain ⟨rs, rfl⟩ := ih fun row hrow => hrows row (List.mem_cons_of_mem _ hrow)
    exact ⟨r :: rs, rfl⟩

/-- **The records of the rows are the entries of the map.** -/
theorem records (h : rows.Shows m) : ∃ rs, rows.records = .ok rs ∧ m.Lists rs := by
  obtain ⟨rs, rfl⟩ := h.exists_records
  have hsorted := h.sorted
  rw [IsSorted, List.pairwise_map] at hsorted
  refine ⟨rs, records_eq rs, hsorted, fun r => ?_⟩
  have hinjective : ∀ {r' : Record}, Row.ofRecord r' = Row.ofRecord r → r' = r := by
    intro r' heq
    exact Except.ok.inj ((Row.record_ofRecord r').symm.trans
      ((congrArg Row.record heq).trans (Row.record_ofRecord r)))
  have hrow := @IsSorted.get?_eq_some _ h.sorted r.file (Row.ofRecord r)
  rw [h.get?] at hrow
  constructor
  · intro hr
    obtain ⟨r', hr', heq⟩ := Option.map_eq_some_iff.mp (hrow.mpr ⟨List.mem_map_of_mem hr, rfl⟩)
    rw [hr', hinjective heq]
  · intro hr
    rw [hr] at hrow
    obtain ⟨r', hr', heq⟩ := List.mem_map.mp (hrow.mp rfl).1
    exact hinjective heq ▸ hr'

/-- Reading the entry of a file. -/
theorem recordIn (h : rows.Shows m) (file : Text) :
    Store.recordIn file rows = .ok (m.get file) := by
  unfold Store.recordIn
  rw [h.get?]
  cases m.get file with
  | none => rfl
  | some r =>
    simp only [Option.map_some, Row.record_ofRecord]
    rfl

end Table.Shows

/-! ## 3. The machine -/

/-- What a name stands for in a session. -/
inductive Access where
  | closed
  /-- A store on the map of the database at a place. -/
  | file (p : Place)
  /-- A private store with a map of its own. -/
  | alone (m : JournalMap)

/-- The maps of all databases, as far as they have been started, and the stores of a session. -/
structure Journals where
  files : Place → Option JournalMap
  stores : Text → Option Access

namespace Journals

/-- A name stands for another store. -/
def setStore (J : Journals) (name : Text) (a : Access) : Journals :=
  { J with stores := Function.update J.stores name (some a) }

/-- A database has another map. -/
def setFile (J : Journals) (p : Place) (m : JournalMap) : Journals :=
  { J with files := Function.update J.files p (some m) }

/-- The map on which the store of a name works, if it is open. -/
def map? (J : Journals) (name : Text) : Option JournalMap :=
  match J.stores name with
  | some (.file p) => J.files p
  | some (.alone m) => some m
  | _ => none

/-- The store of a name gives its map another content. -/
def setMap (J : Journals) (name : Text) (m : JournalMap) : Journals :=
  match J.stores name with
  | some (.file p) => J.setFile p m
  | some (.alone _) => J.setStore name (.alone m)
  | _ => J

end Journals

namespace StoreStep

/-- The name of the store from which a step takes or to which it gives an entry. -/
def uses : StoreStep → Option Text
  | put name _ | get name _ | records name => some name
  | _ => none

/-- The place of the database that a step opens. -/
def target (w : World) : StoreStep → Option Place
  | openStore _ path _ => Store.place? w path
  | _ => none

end StoreStep

/-- How the machine answers a step, and the maps it has then.  Opening finds the map that the
database has, and starts an empty one only where there is none. -/
inductive Journals.Moves (J : Journals) (target : Option Place) :
    StoreStep → Reply → Journals → Prop
  /-- An open may fail, but not that of a database that has been started. -/
  | refused {name path : Text} {timeout : Binary64} {e : Failure}
      (hnew : ∀ p, target = some p → J.files p = none ∨ Text.nul ∈ path) :
      Moves J target (.openStore name path timeout) (.done (.error (.failure e))) J
  | opened {name path : Text} {timeout : Binary64} {p : Place} (hp : target = some p) :
      Moves J target (.openStore name path timeout) (.done (.ok ()))
        ((J.setFile p ((J.files p).getD ∅)).setStore name (.file p))
  | openedAlone {name path : Text} {timeout : Binary64}
      (hprivate : isPrivateDatabase path = true) :
      Moves J target (.openStore name path timeout) (.done (.ok ())) (J.setStore name (.alone ∅))
  | closed {name : Text} {a : Access} (ha : J.stores name = some a) :
      Moves J target (.closeStore name) (.done (.ok ())) (J.setStore name .closed)
  | put {name : Text} {r : Record} {m : JournalMap} (hm : J.map? name = some m) :
      Moves J target (.put name r) (.done (.ok ())) (J.setMap name (m.put r))
  | got {name file : Text} {m : JournalMap} (hm : J.map? name = some m) :
      Moves J target (.get name file) (.found (.ok (m.get file))) J
  | listed {name : Text} {m : JournalMap} {rs : List Record} (hm : J.map? name = some m)
      (hrs : m.Lists rs) : Moves J target (.records name) (.listed (.ok rs)) J
  | isClosed {x : StoreStep} {name : Text} (hx : x.uses = some name)
      (ha : J.stores name = some .closed) :
      Moves J target x (x.failed (.failure (.database .closed))) J
  | unknown {x : StoreStep} {name : Text} (hx : x.uses = some name ∨ x = .closeStore name)
      (ha : J.stores name = none) : Moves J target x (x.failed (.noStore name)) J

/-- The machine, begun with the given maps, answers the steps as the session does, all the way. -/
inductive Session.Explained : Session → Journals → List StoreStep → Prop
  | done {s : Session} {J : Journals} : Explained s J []
  | step {s : Session} {J J' : Journals} {x : StoreStep} {xs : List StoreStep}
      (hx : J.Moves (x.target s.world) x (s.step x).2 J')
      (hrest : Explained (s.step x).1 J' xs) : Explained s J (x :: xs)

theorem Session.Explained.inv {s : Session} {J : Journals} {x : StoreStep} {xs : List StoreStep}
    (h : Explained s J (x :: xs)) : ∃ J', J.Moves (x.target s.world) x (s.step x).2 J' ∧
      Explained (s.step x).1 J' xs := by
  cases h with
  | step hx hrest => exact ⟨_, hx, hrest⟩

end CompileJournal
