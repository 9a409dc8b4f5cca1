import CompileJournal.Proofs.Journal.Access

/-!
# Changes of the rows

A change either puts what it was asked for into the rows that the database holds, or leaves the
database as it was.  Whether it succeeds depends on the locks, on what lies beside the database
and on what the connection remembers, but not on what is to be changed.

* `makeTable_spec`, `putRow_spec`: what the two changes of a store do to the rows;
* `putRow_result`: every row can be put, or none.
-/

namespace CompileJournal.World

variable {w : World} {c : Connection} {α : Type}

/-! ## 1. What becomes of the rows -/

theorem table?_of_content {w w' : World} {h : Handle} (hc : w'.content h = w.content h) :
    w'.table? h = w.table? h := by
  rw [table?, table?, hc]

theorem table?_of_image {w : World} {h : Handle} {i : Image} (hc : w.content h = .database i) :
    w.table? h = i.table := by
  rw [table?, hc]
  rfl

theorem withTable_table (i : Option Image) (t : Option Table) :
    (Image.withTable i t).table = t := by
  cases i <;> rfl

/-- What keeping a change leaves after an access that only looked. -/
structure Kept (w : World) (c : Connection) (i : Image) (t : Turn Unit) : Prop where
  writes : Writes w c t
  ok : t.result = .ok () → t.world.table? c.handle = i.table ∧
    t.connection.memory.schema = some (Image.schema (some i))
  error : ∀ f, t.result = .error f → t.world.content c.handle = w.content c.handle

theorem keep_after {t : Turn α} (hs : Starts w c) (h : Looks w c t) {seen : Option Image}
    (hseen : (w.content c.handle).seen = .ok seen) (i : Image) :
    Kept w c i (t.world.keep t.connection seen i) := by
  have hcontent := h.content hs
  obtain ⟨hwrites, hkept⟩ := keep_spec (h.starts hs) (hcontent ▸ hseen) i
  rw [h.handle] at hcontent hkept
  refine ⟨h.writes.trans hwrites, fun hok => ?_, fun f herror => ?_⟩
  · rw [hok] at hkept
    exact ⟨table?_of_image hkept.1, by rw [hkept.2]; rfl⟩
  · rw [herror] at hkept
    exact hkept.trans hcontent

/-- **Making the table** leaves the rows that are there, or none if the table was missing. -/
theorem makeTable_spec (hs : Starts w c) :
    Writes w c (w.makeTable c) ∧
      match (w.makeTable c).result with
      | .ok () =>
          (w.makeTable c).world.table? c.handle = some ((w.table? c.handle).getD []) ∧
            Knows (w.makeTable c).connection
      | .error _ => (w.makeTable c).world.content c.handle = w.content c.handle := by
  have hschema := readSchema_looks hs
  unfold makeTable
  split
  · next w₁ c₁ f heq =>
    rw [heq] at hschema
    have hcontent := hschema.content hs
    rw [hschema.handle] at hcontent
    exact ⟨(hschema.ends _).writes, hcontent⟩
  next w₁ c₁ s heq =>
  rw [heq] at hschema
  obtain ⟨hs₁schema, hs₁memory⟩ := readSchema_ok hs heq
  have hs₁ : Starts w₁ c₁ := hschema.starts hs
  have hhandle : c₁.handle = c.handle := hschema.handle
  have hcontent : w₁.content c.handle = w.content c.handle := hhandle ▸ hschema.content hs
  have htable : s.hasTable = (w.table? c.handle).isSome := by
    rw [hs₁schema, schema_hasTable]
    rfl
  split
  · next hhas =>
    refine ⟨(hschema.ends _).writes, ?_, s, hs₁memory, hhas⟩
    rw [table?_of_content hcontent]
    rw [hhas] at htable
    obtain ⟨rows, hrows⟩ := Option.isSome_iff_exists.mp htable.symm
    rw [hrows]
    rfl
  next hhas =>
  have hnone : w.table? c.handle = none := by
    rw [Bool.not_eq_true] at hhas
    rw [hhas] at htable
    exact Option.isNone_iff_eq_none.mp (Option.isSome_eq_false_iff.mp htable.symm)
  have hread := beginWrite_reads hs₁ false
  split
  · next w₂ c₂ f heq₂ =>
    rw [heq₂] at hread
    have hlooks := hschema.trans hs hread.toLooks
    have hcontent₂ := hlooks.content hs
    rw [hlooks.handle] at hcontent₂
    exact ⟨(hlooks.ends _).writes, hcontent₂⟩
  next w₂ c₂ seen heq₂ =>
  rw [heq₂] at hread
  have hlooks := hschema.trans hs hread.toLooks
  have hseen : (w.content c.handle).seen = .ok seen := by
    rw [← hcontent, ← hhandle]
    exact hread.seen rfl
  have hkept := keep_after hs hlooks hseen (Image.withTable seen (some []))
  refine ⟨hkept.writes, ?_⟩
  split
  · next hok =>
    obtain ⟨htable₂, hmemory⟩ := hkept.ok hok
    refine ⟨?_, _, hmemory, ?_⟩
    · rw [htable₂, withTable_table, hnone]
      rfl
    · rw [schema_hasTable, Option.bind_some, withTable_table]
      rfl
  · next f herror => exact hkept.error f herror

theorem rowsOf_ok {q : Query} {seen : Option Image} {w' : World} {c' : Connection} {rows : Table}
    (h : w.rowsOf c q seen = ⟨w', c', .ok rows⟩) :
    w' = w ∧ c' = c.remember { c.memory with schema := some (Image.schema seen) } ∧
      seen.bind Image.table = some rows := by
  unfold rowsOf at h
  split at h
  · exact absurd (congrArg Turn.result h) (by simp)
  · next rows' hrows =>
    cases h
    exact ⟨rfl, rfl, hrows⟩

theorem giveUp_tends (hs : Starts w c) {seen : Option Image}
    (hseen : (w.content c.handle).seen = .ok seen) : w.Tends c.handle (w.giveUp c seen) := by
  unfold giveUp
  split
  · next hnone =>
    refine dropUndo_tends hs.sound hs.hosts ?_
    intro hblank
    cases seen with
    | none =>
      rw [Content.isBlank_of_seen hseen] at hblank
      exact absurd hblank (by simp)
    | some i => exact absurd hnone (by simp)
  · exact .refl hs.sound

/-- **Adding a row** puts it into the rows that are there, or leaves the database as it was. -/
theorem putRow_spec (hs : Starts w c) (r : Row) :
    Writes w c (w.putRow c r) ∧
      match (w.putRow c r).result with
      | .ok () => ∃ rows, w.table? c.handle = some rows ∧
          (w.putRow c r).world.table? c.handle = some (rows.put r) ∧
            Knows (w.putRow c r).connection
      | .error _ => (w.putRow c r).world.content c.handle = w.content c.handle := by
  have hunderstand := understand_looks hs .put
  -- An access that only looked leaves the database as it was, however it ended.
  have hfail : ∀ (t : Turn Unit) (f : DatabaseFault), t.result = .error f → Looks w c t →
      Writes w c t ∧ t.world.content c.handle = w.content c.handle := by
    intro t f _ hlooks
    have hcontent := hlooks.content hs
    rw [hlooks.handle] at hcontent
    exact ⟨hlooks.writes, hcontent⟩
  unfold putRow
  split
  · next w₁ c₁ f heq =>
    rw [heq] at hunderstand
    exact hfail ⟨w₁, c₁, .error f⟩ f rfl (hunderstand.ends _)
  next w₁ c₁ heq =>
  rw [heq] at hunderstand
  have hread := beginWrite_reads (hunderstand.starts hs) false
  split
  · next w₂ c₂ f heq₂ =>
    rw [heq₂] at hread
    exact hfail ⟨w₂, c₂, .error f⟩ f rfl ((hunderstand.trans hs hread.toLooks).ends _)
  next w₂ c₂ seen heq₂ =>
  rw [heq₂] at hread
  have hseen : (w.content c.handle).seen = .ok seen := by
    rw [← hunderstand.content hs]
    exact hread.seen rfl
  have hlooks := hunderstand.trans hs hread.toLooks
  have hs₂ : Starts w₂ c₂ := hlooks.starts hs
  have hrows := rowsOf_looks hs₂ .put seen
  split
  · next w₃ c₃ rows i heq₃ =>
    obtain ⟨rfl, rfl, htable⟩ := rowsOf_ok heq₃
    rw [heq₃] at hrows
    have hlooks₃ := hlooks.trans hs hrows
    have hkept := keep_after hs hlooks₃ hseen
      (i.withRows (!c₂.memory.isLogging) (rows.put r))
    refine ⟨hkept.writes, ?_⟩
    split
    · next hok =>
      obtain ⟨htable₃, hmemory⟩ := hkept.ok hok
      refine ⟨rows, ?_, htable₃, _, hmemory, rfl⟩
      rw [table?, ← Content.eq_image_of_seen hseen, htable]
    · next f herror => exact hkept.error f herror
  · next seen _ _ w₃ c₃ f heq₃ =>
    rw [heq₃] at hrows
    have hlooks₃ := hlooks.trans hs hrows
    have hs₃ : Starts w₃ c₃ := hlooks₃.starts hs
    have hseen₃ : (w₃.content c₃.handle).seen = .ok seen := hlooks₃.content hs ▸ hseen
    exact hfail ⟨w₃.giveUp c₃ seen, c₃, .error f⟩ f rfl
      (hlooks₃.trans hs (hs₃.aside (giveUp_tends hs₃ hseen₃) (.error f)))
  · next w₃ c₃ rows heq₃ =>
    rw [heq₃] at hrows
    exact hfail ⟨w₃, c₃, .error .noTable⟩ _ rfl ((hlooks.trans hs hrows).ends _)

/-! ## 2. Whether a change succeeds -/

theorem keep_result (w : World) (c : Connection) (seen : Option Image) (i j : Image) :
    (w.keep c seen i).result = (w.keep c seen j).result := by
  unfold keep
  split
  · rfl
  simp only
  split
  · rfl
  · split <;> rfl

/-- **Whether a row can be put does not depend on the row.** -/
theorem putRow_result (w : World) (c : Connection) (r r' : Row) :
    (w.putRow c r).result = (w.putRow c r').result := by
  unfold putRow
  split
  · rfl
  split
  · rfl
  split
  · exact keep_result ..
  · rfl
  · rfl

end CompileJournal.World
