import CompileJournal.Journal.Table
import CompileJournal.Proofs.Words.RoundTrip
import Mathlib.Data.Char
import Mathlib.Data.List.Lex

/-!
# A table is a map

The rows of a table stand in strictly increasing order of their files, and a row that is put keeps
that order.  So a table has at most one row for a file, and it is known when the row of each file
is known.

* `get?_put`, `get?_putAll`: the rows of the files after some were put;
* `IsSorted.put`, `IsSorted.get?_eq_some`: the order, and what follows from it;
* `IsSorted.ext`: a sorted table is known by its rows;
* `records_eq`, `records_ok`: the records of a table.
-/

namespace CompileJournal

/-- The row of a record is read back as that record. -/
theorem Row.record_ofRecord (r : Record) : (Row.ofRecord r).record = .ok r := by
  rw [record, ofRecord, Words.decode_encode]
  rfl

namespace Table

/-! ## 1. The row of a file -/

@[simp] theorem get?_cons (first : Row) (rest : Table) (file : Text) :
    get? (first :: rest) file = if first.file = file then some first else get? rest file := by
  by_cases h : first.file = file <;> simp [get?, h]

/-- The row of a file after one was put. -/
theorem get?_put (row : Row) (rows : Table) (file : Text) :
    get? (put row rows) file = if row.file = file then some row else get? rows file := by
  induction rows with
  | nil => simp [put]
  | cons first rest ih =>
    unfold put
    split
    · rw [get?_cons]
    split
    · next heq =>
      rw [get?_cons, get?_cons, ← heq]
      split <;> rfl
    · next hne =>
      rw [get?_cons, get?_cons, ih]
      by_cases hfirst : first.file = file
      · rw [if_pos hfirst, if_pos hfirst, if_neg (hfirst ▸ hne)]
      · rw [if_neg hfirst, if_neg hfirst]

/-- The rows after one was put for each of several files. -/
def putAll (rowOf : Text → Row) (files : List Text) (rows : Table) : Table :=
  files.foldl (fun t file => t.put (rowOf file)) rows

/-- Each of the files has its row afterwards, and all others have kept theirs. -/
theorem get?_putAll {rowOf : Text → Row} (hrow : ∀ file, (rowOf file).file = file)
    (files : List Text) (rows : Table) (file : Text) :
    (putAll rowOf files rows).get? file =
      if file ∈ files then some (rowOf file) else rows.get? file := by
  induction files generalizing rows with
  | nil => simp [putAll]
  | cons first rest ih =>
    have hstep : putAll rowOf (first :: rest) rows =
        putAll rowOf rest (rows.put (rowOf first)) := rfl
    rw [hstep, ih, get?_put, hrow]
    by_cases hmem : file ∈ rest
    · simp [hmem]
    · by_cases hfirst : first = file
      · simp [hfirst]
      · simp [hmem, hfirst, Ne.symm hfirst]

/-! ## 2. The order of the rows -/

/-- The rows stand in strictly increasing order of their files. -/
def IsSorted (t : Table) : Prop := t.Pairwise fun r s => r.file < s.file

theorem isSorted_nil : IsSorted [] := List.Pairwise.nil

/-- What is in a table after a row was put was there before, or it is that row. -/
theorem mem_put {row r : Row} {t : Table} (h : r ∈ put row t) : r = row ∨ r ∈ t := by
  induction t with
  | nil => exact .inl (List.mem_singleton.mp h)
  | cons first rest ih =>
    unfold put at h
    split at h
    · exact List.mem_cons.mp h
    split at h
    · exact (List.mem_cons.mp h).imp_right (List.mem_cons_of_mem _)
    · rcases List.mem_cons.mp h with rfl | h
      · exact .inr List.mem_cons_self
      · exact (ih h).imp_right (List.mem_cons_of_mem _)

/-- **Putting a row keeps the order.** -/
theorem IsSorted.put {t : Table} (h : IsSorted t) (row : Row) : IsSorted (t.put row) := by
  induction t with
  | nil => exact List.pairwise_singleton _ _
  | cons first rest ih =>
    obtain ⟨hfirst, hrest⟩ := List.pairwise_cons.mp h
    unfold Table.put
    split
    · next hlt =>
      refine List.pairwise_cons.mpr ⟨fun r hr => ?_, h⟩
      rcases List.mem_cons.mp hr with rfl | hr
      · exact hlt
      · exact hlt.trans (hfirst r hr)
    next hnlt =>
    split
    · next heq => exact List.pairwise_cons.mpr ⟨fun r hr => heq ▸ hfirst r hr, hrest⟩
    · next hne =>
      have hgt : first.file < row.file := lt_of_le_of_ne (not_lt.mp hnlt) (Ne.symm hne)
      refine List.pairwise_cons.mpr ⟨fun r hr => ?_, ih hrest⟩
      rcases mem_put hr with rfl | hr
      · exact hgt
      · exact hfirst r hr

theorem IsSorted.putAll {t : Table} (h : IsSorted t) (rowOf : Text → Row) (files : List Text) :
    IsSorted (putAll rowOf files t) := by
  induction files generalizing t with
  | nil => exact h
  | cons first rest ih => exact ih (h.put (rowOf first))

/-- A sorted table has one row for a file, so that a row that is there is the one of its file. -/
theorem IsSorted.get?_eq_some {t : Table} (h : IsSorted t) {file : Text} {r : Row} :
    t.get? file = some r ↔ r ∈ t ∧ r.file = file := by
  induction t with
  | nil => simp [get?]
  | cons first rest ih =>
    obtain ⟨hfirst, hrest⟩ := List.pairwise_cons.mp h
    rw [get?_cons]
    split
    · next heq =>
      rw [Option.some.injEq]
      refine ⟨fun hr => hr ▸ ⟨List.mem_cons_self, heq⟩, ?_⟩
      rintro ⟨hr, hfile⟩
      rcases List.mem_cons.mp hr with rfl | hr
      · rfl
      · have hlt := hfirst r hr
        rw [heq, hfile] at hlt
        exact absurd hlt (lt_irrefl _)
    · next hne =>
      rw [ih hrest, List.mem_cons]
      refine ⟨fun hr => ⟨.inr hr.1, hr.2⟩, ?_⟩
      rintro ⟨rfl | hr, hfile⟩
      · exact absurd hfile hne
      · exact ⟨hr, hfile⟩

/-- The rows of a file in a sorted table: the one there is, or none. -/
theorem IsSorted.filter_eq {t : Table} (h : IsSorted t) (file : Text) :
    t.filter (·.file = file) = (t.get? file).toList := by
  induction t with
  | nil => rfl
  | cons first rest ih =>
    obtain ⟨hfirst, hrest⟩ := List.pairwise_cons.mp h
    rw [get?_cons]
    split
    · next heq =>
      have hnone : rest.filter (·.file = file) = [] := by
        refine List.filter_eq_nil_iff.mpr fun r hr => ?_
        have hlt := hfirst r hr
        rw [heq] at hlt
        simpa using hlt.ne'
      rw [List.filter_cons_of_pos (by simpa using heq), hnone]
      rfl
    · next hne => rw [List.filter_cons_of_neg (by simpa using hne), ih hrest]

/-- **A sorted table is known by the rows of the files.** -/
theorem IsSorted.ext {t t' : Table} (h : IsSorted t) (h' : IsSorted t')
    (hget : ∀ file, t.get? file = t'.get? file) : t = t' := by
  have hmem : ∀ r, r ∈ t ↔ r ∈ t' := by
    intro r
    have hr := @IsSorted.get?_eq_some _ h r.file r
    have hr' := @IsSorted.get?_eq_some _ h' r.file r
    rw [hget] at hr
    simpa using hr.symm.trans hr'
  have hdistinct : ∀ {t : Table}, IsSorted t → t.Nodup := by
    intro t ht
    refine List.Pairwise.imp ?_ ht
    rintro r s hlt rfl
    exact lt_irrefl _ hlt
  exact ((List.perm_ext_iff_of_nodup (hdistinct h) (hdistinct h')).mpr hmem).eq_of_pairwise
    (fun r s _ _ hrs hsr => absurd hrs hsr.asymm) h h'

/-! ## 3. The records of a table -/

/-- The records of a table whose rows were made from records. -/
theorem records_eq (rs : List Record) : records (rs.map Row.ofRecord) = .ok rs := by
  induction rs with
  | nil => rfl
  | cons r rest ih =>
    rw [records] at ih ⊢
    rw [List.map_cons, List.mapM_cons, Row.record_ofRecord, ih]
    rfl

/-- A table is read as records row by row. -/
theorem records_eq_ok {t : Table} {rs : List Record} :
    t.records = .ok rs ↔ List.Forall₂ (fun row r => row.record = .ok r) t rs := by
  induction t generalizing rs with
  | nil => exact ⟨fun h => Except.ok.inj h ▸ .nil, fun h => by cases h; rfl⟩
  | cons row rest ih =>
    rw [records] at ih ⊢
    rw [List.mapM_cons]
    constructor
    · intro h
      cases hrow : row.record with
      | error d =>
        rw [hrow] at h
        exact absurd h (by simp [bind, Except.bind])
      | ok r =>
      cases hrest : rest.mapM Row.record with
      | error d =>
        rw [hrow, hrest] at h
        exact absurd h (by simp [bind, Except.bind])
      | ok rs' =>
        rw [hrow, hrest] at h
        rw [← Except.ok.inj h]
        exact .cons hrow (ih.mp hrest)
    · rintro (_ | ⟨hrow, hall⟩)
      rw [hrow, ih.mpr hall]
      rfl

theorem exists_record_of_mem {t : Table} {rs : List Record} {row : Row}
    (h : List.Forall₂ (fun row r => row.record = .ok r) t rs) (hrow : row ∈ t) :
    ∃ r, row.record = .ok r := by
  induction h with
  | nil => exact absurd hrow (by simp)
  | cons hr _ ih =>
    rcases List.mem_cons.mp hrow with rfl | hrow
    · exact ⟨_, hr⟩
    · exact ih hrow

/-- A table can be read as records if each of its rows can. -/
theorem records_ok {t : Table} (h : ∀ row ∈ t, ∃ r, row.record = .ok r) :
    ∃ rs, t.records = .ok rs ∧ List.Forall₂ (fun row r => row.record = .ok r) t rs := by
  suffices hall : ∃ rs, List.Forall₂ (fun row r => row.record = .ok r) t rs by
    obtain ⟨rs, hrs⟩ := hall
    exact ⟨rs, records_eq_ok.mpr hrs, hrs⟩
  induction t with
  | nil => exact ⟨[], .nil⟩
  | cons row rest ih =>
    obtain ⟨r, hr⟩ := h row List.mem_cons_self
    obtain ⟨rs, hall⟩ := ih fun row hrow => h row (List.mem_cons_of_mem _ hrow)
    exact ⟨r :: rs, .cons hr hall⟩

end Table

end CompileJournal
