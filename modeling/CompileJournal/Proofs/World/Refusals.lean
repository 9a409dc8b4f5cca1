import CompileJournal.Proofs.World.Growth

/-!
# What the world refuses

An operation on the world that fails says why, and a run reports it.  There are two exceptions.  A
path that holds the character with code 0 never gets as far as the system, and directories are not
made if too many of them are missing one inside the other.

* `map_eq_error`, `mapError_eq_error`: failures that an operation hands on;
* `Failure.Concerns`: a failure of an operation on a path, with this one exception;
* `makeEntryAt_error`, `connect_error`, `writeText_error`, `changeDirectory_error`: operations on
  one path;
* `resolve_error`: resolving, which has no exception;
* `makeDirectories_error`: making directories, which has both.
-/

namespace CompileJournal

/-! ## 1. Failures that are handed on -/

theorem map_eq_error {ε α β : Type} {f : α → β} {x : Except ε α} {e : ε} :
    x.map f = .error e ↔ x = .error e := by
  cases x <;> simp [Except.map]

theorem map_eq_ok {ε α β : Type} {f : α → β} {x : Except ε α} {b : β} :
    x.map f = .ok b ↔ ∃ a, x = .ok a ∧ f a = b := by
  cases x <;> simp [Except.map]

theorem mapError_eq_error {ε ε' α : Type} {f : ε → ε'} {x : Except ε α} {e' : ε'} :
    x.mapError f = .error e' ↔ ∃ e, x = .error e ∧ f e = e' := by
  cases x <;> simp [Except.mapError]

/-- What an operation on a path may fail with: a failure that is reported, or the other one if the
path holds the character with code 0. -/
inductive Failure.Concerns (path : Text) : Failure → Prop where
  | reported {e : Failure} : e.isReported = true → Concerns path e
  | nul : Text.nul ∈ path → Concerns path .nulInPath

theorem Failure.Concerns.mono {path path' : Text} {e : Failure} (h : e.Concerns path)
    (hpath : Text.nul ∈ path → Text.nul ∈ path') : e.Concerns path' := by
  cases h with
  | reported hreported => exact .reported hreported
  | nul hnul => exact .nul (hpath hnul)

/-! ## 2. Paths without the character with code 0 -/

namespace Path

theorem mem_climb {inner : List Name} {name m : Name} (h : m ∈ climb inner name) :
    m ∈ inner ∨ m = name := by
  unfold climb at h
  split at h
  · exact .inl h
  split at h
  · exact .inl (List.mem_of_mem_tail h)
  · exact (List.mem_cons.mp h).symm

/-- The names of the lexical form are pieces of the path. -/
theorem mem_pieces_of_mem_lexical {p : Text} {m : Name} (h : m ∈ (lexical p).inner) :
    m ∈ pieces p := by
  have hfold : ∀ (names inner : List Name), m ∈ names.foldl climb inner →
      m ∈ inner ∨ m ∈ names := by
    intro names
    induction names with
    | nil => exact fun _ h => .inl h
    | cons n names ih =>
      intro inner h
      rcases ih _ h with h | h
      · rcases mem_climb h with h | rfl
        · exact .inl h
        · exact .inr List.mem_cons_self
      · exact .inr (List.mem_cons_of_mem _ h)
  exact (hfold _ _ h).resolve_left (by simp)

theorem mem_of_mem_join {base p : Text} {c : Char} (hc : c ≠ '/') (h : c ∈ join base p) :
    c ∈ base ∨ c ∈ p := by
  unfold join at h
  split at h
  · exact .inr h
  split at h
  · exact List.mem_append.mp h
  · exact (List.mem_append.mp h).imp_right fun h => (List.mem_cons.mp h).resolve_left hc

/-- A character of the text of a lexical path comes from a name. -/
theorem mem_of_mem_text {l : Lexical} {c : Char} (hc : c ≠ '/') (h : c ∈ l.text) :
    ∃ m ∈ l.inner, c ∈ m := by
  have hjoin : ∀ ts : List Text, c ∈ Text.joinWith ['/'] ts → ∃ m ∈ ts, c ∈ m := by
    intro ts
    unfold Text.joinWith
    induction ts with
    | nil => simp
    | cons t ts ih =>
      cases ts with
      | nil => simp
      | cons t' ts =>
        rw [List.intercalate_cons_cons, List.mem_append, List.mem_append]
        rintro ((h | h) | h)
        · exact ⟨t, List.mem_cons_self, h⟩
        · exact absurd (List.mem_singleton.mp h) hc
        · obtain ⟨m, hm, hmc⟩ := ih h
          exact ⟨m, List.mem_cons_of_mem _ hm, hmc⟩
  rcases List.mem_append.mp h with h | h
  · split at h <;> simp [hc] at h
  · obtain ⟨m, hm, hmc⟩ := hjoin _ h
    exact ⟨m, List.mem_reverse.mp hm, hmc⟩

end Path

namespace World

variable {w w' : World} {path base t : Text} {e : Failure}

/-! ## 3. One path -/

/-- Only a directory that was removed has no path. -/
theorem currentDirectory_error (h : w.currentDirectory = .error e) :
    w.cwd.lost ≠ 0 ∧ e = .system .notFound none := by
  unfold currentDirectory at h
  split at h
  · exact absurd h (by simp)
  · next hlost => exact ⟨hlost, (Except.error.inj h).symm⟩

theorem realPath_error (h : w.realPath path = .error e) : e.isReported = true := by
  unfold realPath at h
  simp only at h
  split at h
  · exact absurd h (by simp)
  · rw [(currentDirectory_error (map_eq_error.mp h)).2]
    rfl

/-- A path that cannot be resolved is always reported. -/
theorem resolve_error (h : w.resolve base path = .error e) : e.isReported = true := by
  unfold resolve at h
  split at h
  · exact realPath_error h
  · cases h
    rfl

theorem makeEntryAt_error {entry : Entry} (h : w.makeEntryAt path entry = .error e) :
    e.Concerns path := by
  unfold makeEntryAt at h
  split at h
  · next hnul =>
    cases h
    exact .nul hnul
  · repeat' split at h
    all_goals cases h
    all_goals exact .reported rfl

theorem openForWriting_error (h : w.openForWriting path = .error e) : e.Concerns path := by
  unfold openForWriting at h
  split at h
  · next hnul =>
    cases h
    exact .nul hnul
  · repeat' split at h
    all_goals cases h
    all_goals exact .reported rfl

theorem writeText_error (h : w.writeText path t = .error e) : e.Concerns path := by
  unfold writeText at h
  split at h
  · next hopen =>
    cases h
    exact openForWriting_error hopen
  · exact absurd h (by simp)
  · exact absurd h (by simp)

/-- Changing to a directory is the only operation whose failures are not all reported alike, so it is
told which of them are the system's. -/
theorem changeDirectory_error (h : w.changeDirectory path = .error e) :
    (∃ reason about, e = .system reason about) ∨ e = .nulInPath ∧ Text.nul ∈ path := by
  unfold changeDirectory at h
  split at h
  · next hnul =>
    cases h
    exact .inr ⟨rfl, hnul⟩
  · repeat' split at h
    all_goals cases h
    all_goals exact .inl ⟨_, _, rfl⟩

theorem connectAt_error {p : Place} (h : w.connectAt p = .error e) : e.isReported = true := by
  unfold connectAt at h
  repeat' split at h
  all_goals cases h
  all_goals rfl

theorem connect_error (h : w.connect path = .error e) : e.Concerns path := by
  unfold connect at h
  split at h
  · exact absurd h (by simp)
  split at h
  · next hnul =>
    cases h
    exact .nul hnul
  split at h
  · cases h
    exact .reported rfl
  · exact .reported (connectAt_error h)

/-! ## 4. Directories -/

theorem ensureDirectory_error (h : (w.ensureDirectory path).2 = .error e) : e.Concerns path := by
  unfold ensureDirectory at h
  split at h
  · exact absurd h (by simp)
  · next hmake =>
    split at h
    · exact absurd h (by simp)
    · cases h
      exact makeEntryAt_error hmake
  · next hmake =>
    cases h
    exact makeEntryAt_error hmake

theorem ensureInside_error {p : Place} {name : Name}
    (h : (w.ensureInside p name path).2 = .error e) : e.Concerns path := by
  unfold ensureInside at h
  split at h
  · next hnul =>
    cases h
    exact .nul hnul
  split at h
  · cases h
    exact .reported rfl
  · exact absurd h (by simp)

/-- A directory that could not be made, or one of those above it. -/
theorem makeMissing_error {doubled : Bool} {inner : List Name}
    (h : (makeMissing doubled inner w).2 = .error e) :
    e.Concerns (Path.Lexical.text ⟨doubled, inner⟩) := by
  induction inner generalizing e with
  | nil => exact ensureDirectory_error h
  | cons name outer ih =>
    have habove : Text.nul ∈ Path.Lexical.text ⟨doubled, outer⟩ →
        Text.nul ∈ Path.Lexical.text ⟨doubled, name :: outer⟩ := by
      intro hnul
      obtain ⟨m, hm, hnul⟩ := Path.mem_of_mem_text (by decide) hnul
      exact Path.mem_text_of_mem (List.mem_cons_of_mem _ hm) hnul
    simp only [makeMissing] at h
    split at h
    · exact ensureDirectory_error h
    split at h
    · exact ensureInside_error h
    · exact ensureDirectory_error h
    · exact ensureDirectory_error h
    · next hmake =>
      cases h
      exact (ih (by rw [hmake])).mono habove

/-- **Making directories** fails for a reason that is reported, for a path that holds the character
with code 0, or because too many are missing. -/
theorem makeDirectories_error {doubled : Bool} {inner : List Name}
    (h : (makeDirectories doubled inner w).2 = .error e) :
    e.Concerns (Path.Lexical.text ⟨doubled, inner⟩) ∨
      e = .tooDeep ∧ maxMissingDepth < w.missingDepth doubled inner := by
  unfold makeDirectories at h
  split at h
  · next hdeep =>
    cases h
    exact .inr ⟨rfl, hdeep⟩
  · exact .inl (makeMissing_error (map_eq_error.mp h))

end World

end CompileJournal
