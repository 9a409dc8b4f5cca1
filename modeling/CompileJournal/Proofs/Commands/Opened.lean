import CompileJournal.Proofs.CommandLine.Bookkeeping
import CompileJournal.Proofs.Commands.SameCompile

/-!
# A store that has just been opened

Opening ends with one turn of a new connection, which makes the table if it is missing.  The
connection remembers nothing before this turn, and so it remembers the right things after it.  What
the store gives next are the rows that were in the database before it was opened, in any world and
whoever else has it open.

* `openAt_ok`: the turn that opening ends with;
* `TakesTurn.right`: what a connection remembers after a turn;
* `Store.rowsAt`, `rows_of_opened`: the rows from before.
-/

namespace CompileJournal

variable {w w₁ v : World} {s : Store} {c : Connection} {path : Text} {timeout : Binary64}

namespace World

/-- A private database is a new file, so there is nothing in it. -/
theorem Connects.table?_of_private (hc : w.Connects path v c) (hp : c.handle.place = none) :
    v.table? c.handle = none := by
  have hnew : v.content c.handle = .text [] := (hc.of_private hp).2.content
  rw [table?, hnew]
  rfl

/-- A turn leaves the connection with the log, or in agreement with the file. -/
theorem TakesTurn.right {t : Turn Unit} {becomes : Option Table → Option Table → Prop}
    (ht : TakesTurn w c becomes t) (ha : c.memory.Agrees (w.content c.handle)) :
    t.connection.memory.isLogging = true ∨
      t.connection.memory.Agrees (t.world.content t.connection.handle) := by
  rw [ht.handle]
  rcases ht.memory (.inr (.inr ha)) with hl | ⟨hsame, hagrees⟩ | ⟨-, hagrees, -⟩
  · exact .inl hl
  · rw [hsame]
    exact .inr (hagrees ha)
  · exact .inr hagrees

end World

namespace Store

/-- **Opening a store** connects to its database, and has then made the table through the new
connection. -/
theorem openAt_ok (hw : w.IsSound) (hopened : openAt w path timeout = (w₁, .ok s)) :
    ∃ v c, World.Connects (withDirectories w path) path v c ∧ v.IsSound ∧
      s.connection? (attach v c) = some c ∧ ((attach v c).makeTable c).result = .ok () ∧
      w₁ = s.setConnection ((attach v c).makeTable c).world
        (some ((attach v c).makeTable c).connection) := by
  rcases openAt_cases hw path timeout with ⟨e, heq⟩ | ⟨v, c, ho⟩
  · exact absurd (congrArg Prod.snd (heq.symm.trans hopened)) (by simp)
  rw [ho.world] at hopened
  cases hturn : ((attach v c).makeTable c).result with
  | error f =>
    rw [hturn] at hopened
    exact absurd (congrArg Prod.snd hopened) (by simp [Except.mapError, Except.map])
  | ok u =>
    rw [hturn] at hopened
    obtain ⟨rfl, hs⟩ := Prod.mk.inj hopened
    obtain rfl := Except.ok.inj hs
    exact ⟨v, c, ho.connects, ho.connects.grows.sound ho.sound, connection?_new, hturn, rfl⟩

/-- The rows of the database that a path stands for.  A private database has none, and neither has
one that is still to be made. -/
def rowsAt (w : World) (path : Text) : Table := ((place? w path).bind w.tableAt).getD []

/-- The connection of a store that was opened uses the log or is in agreement with the file, in
which are the rows from before. -/
theorem connection_of_opened (hw : w.IsSound) (hopened : openAt w path timeout = (w₁, .ok s)) :
    ∃ c, s.IsOpen w₁ c ∧
      (c.memory.isLogging = true ∨ c.memory.Agrees (w₁.content c.handle)) ∧
      w₁.table? c.handle = some (rowsAt w path) := by
  obtain ⟨c, ho, hplace, hrows⟩ := CommandLine.opened_tableAt hw hopened
  obtain ⟨v, c₀, hconnects, hv, hself, hresult, rfl⟩ := openAt_ok hw hopened
  have hfresh : c₀.memory.Agrees ((attach v c₀).content c₀.handle) :=
    hconnects.memory ▸ Memory.agrees_empty _
  have hhosts : (attach v c₀).Hosts c₀.handle := ⟨hconnects.hosts.number, hconnects.hosts.place⟩
  have hturn := World.makeTable_turns (hhosts.carries (w := attach v c₀) ⟨hv.tree, hv.cwd⟩) hfresh
  obtain rfl : c = ((attach v c₀).makeTable c₀).connection := by
    refine Option.some.inj (ho.connection.symm.trans ?_)
    exact connection?_setConnection hself hturn.world.connections _
  refine ⟨_, ho, hturn.right hfresh, ?_⟩
  cases hp : ((attach v c₀).makeTable c₀).connection.handle.place with
  | some p => rw [hrows hp, rowsAt, ← hplace, hp, Option.bind_some]
  | none =>
    have hbefore : (attach v c₀).table? c₀.handle = none :=
      hconnects.table?_of_private (hturn.handle ▸ hp)
    have hafter := hturn.kept (.inr (.inr hfresh)) hresult
    rw [hbefore] at hafter
    rw [hturn.handle, rowsAt, ← hplace, hp]
    exact hafter

/-- **A store that was opened gives the rows from before**, whatever it is asked. -/
theorem rows_of_opened (hw : w.IsSound) (hopened : openAt w path timeout = (w₁, .ok s))
    {q : Query} {rows : Table} (hread : (s.use w₁ fun w c => w.readRows c q).2 = .ok rows) :
    rows = rowsAt w path := by
  obtain ⟨c, ho, hright, htable⟩ := connection_of_opened hw hopened
  rw [use_eq ho.connection] at hread
  have hrows := World.table?_of_readRows (ho.starts.hosts.carries ho.starts.sound) hright
    (result_ok hread)
  exact Option.some.inj (hrows.symm.trans htable)

end Store

end CompileJournal
