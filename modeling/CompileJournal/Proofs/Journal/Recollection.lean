import CompileJournal.Proofs.Journal.Using

/-!
# When a connection misses the table

A connection that found no table remembers that, and while a transaction from outside keeps it
from looking again it goes by what it remembers.  It comes to miss the table in one way only: a
statement of its own ends with the answer that there is no table.  Every statement that goes well
ends that.

* `Memory.Misses`: the table was missing when the connection looked last;
* `World.Recollects`: what a turn leaves of that;
* `readRows_recollects`, `putRow_recollects`: the statements of a store;
* `Store.use_recollects`: an operation of a store.
-/

namespace CompileJournal

/-- The table was missing when the connection looked for it last. -/
def Memory.Misses (m : Memory) : Prop := ∃ s, m.schema = some s ∧ s.hasTable = false

theorem Connection.IsBlind.misses {c : Connection} {q : Query} (h : c.IsBlind q) :
    c.memory.Misses := h.2

namespace Memory

variable {m m' : Memory} {s : Schema}

theorem misses_congr (h : m'.schema = m.schema) : m'.Misses ↔ m.Misses := by
  rw [Misses, Misses, h]

theorem not_misses (h : m.schema = some s) (hs : s.hasTable = true) : ¬m.Misses := by
  rintro ⟨s', hs', hmissing⟩
  obtain rfl := Option.some.inj (h.symm.trans hs')
  rw [hs] at hmissing
  exact absurd hmissing (by simp)

theorem look_schema (m : Memory) (c : Content) : (m.look c).1.schema = m.schema := by
  unfold look
  split
  · split
    · rfl
    · rfl
  · split <;> rfl

theorem learn_schema (m : Memory) (q : Query) : (m.learn q).schema = m.schema := by
  unfold learn
  split
  · rfl
  · rfl

end Memory

namespace World

variable {w : World} {c : Connection} {q : Query} {α : Type}

/-! ## 1. Beginning and keeping -/

/-- Whoever knows of the table does not miss it. -/
theorem Knows.not_misses (h : Knows c) : ¬c.memory.Misses := by
  obtain ⟨s, hs, htable⟩ := h
  exact Memory.not_misses hs htable

theorem look_schema (w : World) (c : Connection) :
    (w.look c).connection.memory.schema = c.memory.schema :=
  (Memory.look_schema _ _).trans (Memory.refresh_schema _ _)

/-- Beginning to read tells nothing about the tables. -/
theorem beginRead_schema (w : World) (c : Connection) :
    (w.beginRead c).connection.memory.schema = c.memory.schema := by
  unfold beginRead
  split
  · exact look_schema w c
  split
  · rfl
  split
  · rfl
  split
  · exact Memory.refresh_schema _ _
  · exact (look_schema _ _).trans (Memory.refresh_schema _ _)

/-- Nor does beginning to change. -/
theorem beginWrite_schema (w : World) (c : Connection) (closesOff : Bool) :
    (w.beginWrite c closesOff).connection.memory.schema = c.memory.schema := by
  have hread := beginRead_schema w c
  unfold beginWrite
  split
  · next heq => rwa [heq] at hread
  next heq =>
  rw [heq] at hread
  simp only
  split
  · exact hread
  split
  · exact hread
  split
  · exact hread
  split
  · exact hread
  · exact hread

/-- A change is kept and remembered, or it is neither. -/
theorem keep_connection (w : World) (c : Connection) (seen : Option Image) (i : Image) :
    (w.keep c seen i).connection = c.remember (c.memory.wrote i) ∨
      (w.keep c seen i).connection = c ∧ ∀ a, (w.keep c seen i).result ≠ .ok a := by
  unfold keep
  simp only
  split
  · exact .inl rfl
  split
  · exact .inr ⟨rfl, fun _ h => by simp at h⟩
  split
  · exact .inr ⟨rfl, fun _ h => by simp at h⟩
  · exact .inl rfl

/-! ## 2. Statements -/

/-- After a turn that does not end for want of the table, the connection misses it only if it did so
before; after one that went well, never. -/
structure Recollects (c : Connection) (t : Turn α) : Prop where
  misses : t.result ≠ .error .noTable → t.connection.memory.Misses → c.memory.Misses
  went : ∀ a, t.result = .ok a → ¬t.connection.memory.Misses

/-- A statement that is understood need not have looked for the table. -/
theorem understand_misses (w : World) (c : Connection) (q : Query)
    (hfound : (w.understand c q).result ≠ .error .noTable)
    (hmisses : (w.understand c q).connection.memory.Misses) : c.memory.Misses := by
  have hanew : (w.learnAnew c q).result ≠ .error .noTable →
      (w.learnAnew c q).connection.memory.Misses → c.memory.Misses := by
    have hread := beginRead_schema w c
    unfold learnAnew readSchema
    intro hfound hmisses
    cases hturn : w.beginRead c with
    | mk v d r =>
    rw [hturn] at hread hfound hmisses
    cases r with
    | error f => exact (Memory.misses_congr hread).mp hmisses
    | ok seen =>
      simp only [learnFrom] at hfound hmisses
      split at hmisses
      · next htable =>
        exact absurd hmisses (Memory.not_misses (Memory.learn_schema _ q) htable)
      · next htable =>
        rw [if_neg htable] at hfound
        exact absurd rfl hfound
  unfold understand at hfound hmisses
  split at hmisses
  · exact hmisses
  next hready =>
  rw [if_neg hready] at hfound
  cases hschema : c.memory.schema with
  | none =>
    simp only [hschema] at hfound hmisses
    exact hanew hfound hmisses
  | some s =>
    simp only [hschema] at hmisses
    split at hmisses
    · next htable =>
      rw [learnFrom_of_table _ _ _ htable] at hmisses
      exact (Memory.misses_congr (Memory.learn_schema _ q)).mp hmisses
    · next htable => exact ⟨s, hschema, by simpa using htable⟩

/-- Whoever gets rows has found the table. -/
theorem rowsOf_recollects (w : World) (c : Connection) (q : Query) (seen : Option Image) :
    (w.rowsOf c q seen).result = .error .noTable ∨
      ¬(w.rowsOf c q seen).connection.memory.Misses ∧
        ∃ i rows, seen = some i ∧ i.table = some rows ∧ (w.rowsOf c q seen).result = .ok rows := by
  unfold rowsOf
  simp only
  split
  · exact .inl rfl
  · next rows hrows =>
    obtain ⟨i, rfl, htable⟩ := Option.bind_eq_some_iff.mp hrows
    exact .inr ⟨Memory.not_misses (s := Image.schema (some i)) rfl (by simp [Image.schema, htable]),
      i, rows, rfl, htable, rfl⟩

theorem readRows_recollects (w : World) (c : Connection) (q : Query) :
    Recollects c (w.readRows c q) := by
  have hunderstand := understand_misses w c q
  unfold readRows
  cases hturn : w.understand c q with
  | mk v d r =>
  rw [hturn] at hunderstand
  cases r with
  | error f => exact ⟨fun hfound => hunderstand (by simpa using hfound), fun _ h => by simp at h⟩
  | ok u =>
  have hd : d.memory.Misses → c.memory.Misses := hunderstand (by simp)
  have hread := beginRead_schema v d
  simp only
  cases hturn' : v.beginRead d with
  | mk v' d' r' =>
  rw [hturn'] at hread
  cases r' with
  | error f =>
    exact ⟨fun _ h => hd ((Memory.misses_congr hread).mp h), fun _ h => by simp at h⟩
  | ok seen =>
    rcases rowsOf_recollects v' d' q seen with hnone | ⟨hfinds, -⟩
    · exact ⟨fun hfound => absurd hnone hfound, fun a h => by simp [hnone] at h⟩
    · exact ⟨fun _ h => absurd h hfinds, fun _ _ => hfinds⟩

/-- A change that is kept or refused keeps the table that was found. -/
theorem keep_recollects (w : World) {c : Connection} (hc : ¬c.memory.Misses)
    (seen : Option Image) {i : Image} (hi : i.table.isSome = true) :
    ¬(w.keep c seen i).connection.memory.Misses := by
  rcases keep_connection w c seen i with hkept | ⟨hsame, -⟩
  · rw [hkept]
    exact Memory.not_misses (s := Image.schema (some i)) rfl (by simp [Image.schema, hi])
  · rw [hsame]
    exact hc

theorem putRow_recollects (w : World) (c : Connection) (r : Row) :
    Recollects c (w.putRow c r) := by
  have hunderstand := understand_misses w c .put
  unfold putRow
  cases hturn : w.understand c .put with
  | mk v d result =>
  rw [hturn] at hunderstand
  cases result with
  | error f => exact ⟨fun hfound => hunderstand (by simpa using hfound), fun _ h => by simp at h⟩
  | ok u =>
  have hd : d.memory.Misses → c.memory.Misses := hunderstand (by simp)
  have hwrite := beginWrite_schema v d false
  simp only
  cases hturn' : v.beginWrite d false with
  | mk v' d' result' =>
  rw [hturn'] at hwrite
  cases result' with
  | error f =>
    exact ⟨fun _ h => hd ((Memory.misses_congr hwrite).mp h), fun _ h => by simp at h⟩
  | ok seen =>
    have hrows := rowsOf_recollects v' d' .put seen
    simp only
    cases hturn₂ : v'.rowsOf d' .put seen with
    | mk v₂ d₂ result₂ =>
    rw [hturn₂] at hrows
    rcases hrows with hnone | ⟨hfinds, i, rows, rfl, htable, hok⟩
    · obtain rfl : result₂ = .error .noTable := hnone
      exact ⟨fun hfound => absurd rfl hfound, fun _ h => by simp at h⟩
    · obtain rfl : result₂ = .ok rows := hok
      have hkeep := keep_recollects v₂ hfinds (some i)
        (i := i.withRows (!d₂.memory.isLogging) (rows.put r)) rfl
      exact ⟨fun _ h => absurd h hkeep, fun _ _ => hkeep⟩

end World

namespace Store

open World (Recollects)

variable {w : World} {s : Store} {c : Connection} {α : Type}

/-! ## 3. Operations of a store -/

/-- What an operation of a store leaves of what its connection missed. -/
theorem use_recollects (hc : s.connection? w = some c) {f : World → Connection → Turn α}
    (hconnections : (f w c).world.connections = w.connections) (hf : Recollects c (f w c)) :
    ∃ c', s.connection? (s.use w f).1 = some c' ∧
      ((s.use w f).2 ≠ .error (.database .noTable) → c'.memory.Misses → c.memory.Misses) ∧
      ∀ a, (s.use w f).2 = .ok a → ¬c'.memory.Misses := by
  rw [use_eq hc]
  refine ⟨_, connection?_setConnection hc hconnections _, fun hfound => hf.misses ?_,
    fun a ha => ?_⟩
  · intro hnone
    rw [hnone] at hfound
    exact hfound rfl
  · cases hr : (f w c).result with
    | error e =>
      rw [hr] at ha
      simp [Except.mapError] at ha
    | ok b => exact hf.went b hr

end Store

end CompileJournal
