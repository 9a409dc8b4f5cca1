import CompileJournal.Proofs.Disk.Entries

/-!
# The names of a path

The names that a path leads through are pieces of its text, so they hold no slash and no character
that the path does not hold.  The text of a place leads through exactly the names of the place.

* `mem_pieces`, `mem_names`, `isAlmostClean_lexical`: where the names of a path come from;
* `names_text`, `text_inj`, `byteCount_text`: the text of a place.
-/

namespace CompileJournal

open Disk (IsClean)

/-! ## 1. Pieces -/

namespace Path

@[simp] theorem pieces_nil : pieces [] = [[]] := rfl

@[simp] theorem pieces_slash (p : Text) : pieces ('/' :: p) = [] :: pieces p :=
  if_pos rfl

theorem pieces_of_ne {c : Char} (hc : c ≠ '/') (p : Text) :
    pieces (c :: p) =
      match pieces p with
      | [] => [[c]]
      | piece :: more => (c :: piece) :: more :=
  if_neg hc

theorem pieces_ne_nil (p : Text) : pieces p ≠ [] := by
  cases p with
  | nil => simp
  | cons c p =>
    by_cases hc : c = '/'
    · simp [hc]
    · rw [pieces_of_ne hc]
      split <;> simp

/-- A character that is no slash goes to the first piece. -/
theorem pieces_cons {c : Char} (hc : c ≠ '/') (p : Text) :
    ∃ piece more, pieces p = piece :: more ∧ pieces (c :: p) = (c :: piece) :: more := by
  obtain ⟨piece, more, h⟩ := List.exists_cons_of_ne_nil (pieces_ne_nil p)
  exact ⟨piece, more, h, by rw [pieces_of_ne hc, h]⟩

/-- A piece holds no slash, and only characters of the path. -/
theorem mem_pieces {p piece : Text} (h : piece ∈ pieces p) :
    '/' ∉ piece ∧ ∀ c ∈ piece, c ∈ p := by
  induction p generalizing piece with
  | nil =>
    rw [pieces_nil, List.mem_singleton] at h
    subst h
    simp
  | cons c p ih =>
    by_cases hc : c = '/'
    · subst hc
      rw [pieces_slash] at h
      rcases List.mem_cons.mp h with rfl | h
      · simp
      · exact ⟨(ih h).1, fun c hc => List.mem_cons_of_mem _ ((ih h).2 c hc)⟩
    · obtain ⟨first, more, hp, hcp⟩ := pieces_cons hc p
      rw [hcp] at h
      rcases List.mem_cons.mp h with rfl | h
      · have hfirst := ih (hp ▸ List.mem_cons_self)
        refine ⟨?_, fun d hd => ?_⟩
        · rw [List.mem_cons, not_or]
          exact ⟨Ne.symm hc, hfirst.1⟩
        · rcases List.mem_cons.mp hd with rfl | hd
          · exact List.mem_cons_self
          · exact List.mem_cons_of_mem _ (hfirst.2 d hd)
      · have hpiece := ih (hp ▸ List.mem_cons_of_mem _ h)
        exact ⟨hpiece.1, fun c hc => List.mem_cons_of_mem _ (hpiece.2 c hc)⟩

/-- A path that ends in a slash ends in an empty piece. -/
theorem getLast?_pieces {p : Text} (h : p.getLast? = some '/') :
    (pieces p).getLast? = some [] := by
  induction p with
  | nil => simp at h
  | cons c p ih =>
    by_cases hp : p = []
    · subst hp
      rw [List.getLast?_singleton, Option.some.injEq] at h
      subst h
      simp
    · have hlast : p.getLast? = some '/' := by
        obtain ⟨d, rest, rfl⟩ := List.exists_cons_of_ne_nil hp
        rwa [List.getLast?_cons_cons] at h
      by_cases hc : c = '/'
      · subst hc
        obtain ⟨first, more, hpieces⟩ := List.exists_cons_of_ne_nil (pieces_ne_nil p)
        rw [pieces_slash, hpieces, List.getLast?_cons_cons, ← hpieces, ih hlast]
      · obtain ⟨first, more, hpieces, hcp⟩ := pieces_cons hc p
        have hih := ih hlast
        rw [hpieces] at hih
        rw [hcp]
        cases more with
        | nil =>
          -- The only piece is the whole path, which is empty although it ends in a slash.
          rw [List.getLast?_singleton, Option.some.injEq] at hih
          subst hih
          cases p with
          | nil => exact absurd rfl hp
          | cons d p =>
            by_cases hd : d = '/'
            · subst hd
              rw [pieces_slash, List.cons.injEq] at hpieces
              exact absurd hpieces.2 (pieces_ne_nil p)
            · obtain ⟨_, _, -, hdp⟩ := pieces_cons hd p
              rw [hdp] at hpieces
              exact absurd (List.cons.inj hpieces).1 (List.cons_ne_nil _ _)
        | cons second more => rwa [List.getLast?_cons_cons] at hih ⊢

/-- The names of a path are pieces of it, or the empty name for a slash at its end. -/
theorem mem_names {p name : Text} (h : name ∈ names p) : name ∈ pieces p ∨ name = [] := by
  simp only [names] at h
  split at h
  · rcases List.mem_append.mp h with h | h
    · exact .inl (List.mem_filter.mp h).1
    · exact .inr (List.mem_singleton.mp h)
  · exact .inl (List.mem_filter.mp h).1

/-! ## 2. Names that can be looked up -/

/-- A name that can come out of the text of a path. -/
def IsPiece (name : Name) : Prop := '/' ∉ name ∧ Text.nul ∉ name

theorem IsPiece.isClean {name : Name} (h : IsPiece name) (hnil : name ≠ [])
    (hhere : name ≠ ['.']) (habove : name ≠ ['.', '.']) : IsClean name :=
  ⟨hnil, hhere, habove, h.1, h.2⟩

theorem isPiece_of_mem {p name : Text} (hnul : Text.nul ∉ p) (h : name ∈ pieces p) :
    IsPiece name :=
  ⟨(mem_pieces h).1, fun hm => hnul ((mem_pieces h).2 _ hm)⟩

theorem isPiece_of_mem_names {p name : Text} (hnul : Text.nul ∉ p) (h : name ∈ names p) :
    IsPiece name := by
  rcases mem_names h with h | rfl
  · exact isPiece_of_mem hnul h
  · exact ⟨by simp, by simp⟩

/-- A name that can be written unless it holds the character with code 0. -/
def IsAlmostClean (name : Name) : Prop := Text.nul ∉ name → IsClean name

theorem isAlmostClean_climb {inner : List Name} {name : Name} (hname : '/' ∉ name)
    (h : ∀ m ∈ inner, IsAlmostClean m) : ∀ m ∈ climb inner name, IsAlmostClean m := by
  unfold climb
  split
  · exact h
  next hstay =>
  split
  · exact fun m hm => h m (List.mem_of_mem_tail hm)
  next habove =>
  intro m hm
  rcases List.mem_cons.mp hm with rfl | hm
  · exact fun hnul => ⟨fun e => hstay (.inl e), fun e => hstay (.inr e), habove, hname, hnul⟩
  · exact h m hm

theorem isAlmostClean_lexical (p : Text) : ∀ m ∈ (lexical p).inner, IsAlmostClean m := by
  have hfold : ∀ (names inner : List Name), (∀ n ∈ names, '/' ∉ n) →
      (∀ m ∈ inner, IsAlmostClean m) → ∀ m ∈ names.foldl climb inner, IsAlmostClean m := by
    intro names
    induction names with
    | nil => exact fun _ _ h => h
    | cons n names ih =>
      intro inner hnames h
      rw [List.foldl_cons]
      exact ih _ (fun m hm => hnames m (List.mem_cons_of_mem _ hm))
        (isAlmostClean_climb (hnames n List.mem_cons_self) h)
  exact hfold (pieces p) [] (fun n hn => (mem_pieces hn).1) (by simp)

theorem mem_joinWith {gap t : Text} {ts : List Text} {c : Char} (ht : t ∈ ts) (hc : c ∈ t) :
    c ∈ Text.joinWith gap ts := by
  unfold Text.joinWith
  induction ts with
  | nil => exact absurd ht (by simp)
  | cons first rest ih =>
    cases rest with
    | nil =>
      obtain rfl := List.mem_singleton.mp ht
      rwa [List.intercalate_singleton]
    | cons second rest =>
      rw [List.intercalate_cons_cons, List.append_assoc, List.mem_append, List.mem_append]
      rcases List.mem_cons.mp ht with rfl | ht
      · exact .inl hc
      · exact .inr (.inr (ih ht))

/-- The text of a lexical path holds the characters of its names. -/
theorem mem_text_of_mem {l : Lexical} {name : Name} {c : Char} (hname : name ∈ l.inner)
    (hc : c ∈ name) : c ∈ l.text := by
  unfold Lexical.text
  exact List.mem_append_right _ (mem_joinWith (List.mem_reverse.mpr hname) hc)

end Path

/-! ## 3. The text of a place -/

open CompileJournal.Path

theorem pieces_append_slash {first : Text} (h : '/' ∉ first) (p : Text) :
    pieces (first ++ '/' :: p) = first :: pieces p := by
  induction first with
  | nil => rw [List.nil_append, pieces_slash]
  | cons c first ih =>
    rw [List.mem_cons, not_or] at h
    rw [List.cons_append, pieces_of_ne (Ne.symm h.1), ih h.2]

theorem pieces_of_no_slash {name : Text} (h : '/' ∉ name) : pieces name = [name] := by
  induction name with
  | nil => rfl
  | cons c name ih =>
    rw [List.mem_cons, not_or] at h
    rw [pieces_of_ne (Ne.symm h.1), ih h.2]

/-- Names behind a first name, each after a slash. -/
theorem pieces_append_flatMap {ns : List Name} (hns : ∀ m ∈ ns, '/' ∉ m) {first : Name}
    (hfirst : '/' ∉ first) : pieces (first ++ ns.flatMap ('/' :: ·)) = first :: ns := by
  induction ns generalizing first with
  | nil => rw [List.flatMap_nil, List.append_nil, pieces_of_no_slash hfirst]
  | cons m ns ih =>
    have hm := hns m List.mem_cons_self
    rw [List.flatMap_cons, List.cons_append, pieces_append_slash hfirst,
      ih (fun n hn => hns n (List.mem_cons_of_mem _ hn)) hm]

theorem isAbsolute_ofNames (ns : List Name) : isAbsolute (ofNames ns) = true := by
  unfold ofNames
  split
  · decide
  next h =>
  obtain ⟨m, ns, rfl⟩ := List.exists_cons_of_ne_nil h
  simp [isAbsolute]

theorem isAbsolute_text (p : Place) : isAbsolute p.text = true := isAbsolute_ofNames _

theorem text_ne_nil (p : Place) : p.text ≠ [] := by
  intro h
  have hp := isAbsolute_text p
  rw [h] at hp
  exact absurd hp (by decide)

theorem no_nul_text {p : Place} (h : ∀ m ∈ p, Text.nul ∉ m) : Text.nul ∉ p.text := by
  unfold Place.text ofNames
  split
  · decide
  · rw [List.mem_flatMap]
    rintro ⟨m, hm, hnul⟩
    rcases List.mem_cons.mp hnul with hslash | hnul
    · exact absurd hslash (by decide)
    · exact h m (List.mem_reverse.mp hm) hnul

theorem pieces_text {p : Place} (hp : p ≠ []) (h : ∀ m ∈ p, '/' ∉ m) :
    pieces p.text = [] :: p.reverse := by
  have hrev : p.reverse ≠ [] := by simpa using hp
  unfold Place.text ofNames
  rw [if_neg hrev]
  have hnil : '/' ∉ ([] : Name) := by simp
  exact pieces_append_flatMap (fun m hm => h m (List.mem_reverse.mp hm)) hnil

/-- **The text of a place leads through the names of the place.** -/
theorem names_text {p : Place} (h : ∀ m ∈ p, IsClean m) : names p.text = p.reverse := by
  by_cases hp : p = []
  · subst hp
    decide
  have hpieces := pieces_text hp fun m hm => (h m hm).no_slash
  have hfilter : (pieces p.text).filter (· ≠ []) = p.reverse := by
    rw [hpieces, List.filter_cons_of_neg (by simp), List.filter_eq_self]
    intro m hm
    simpa using (h m (List.mem_reverse.mp hm)).ne_nil
  have hlast : p.text.getLast? ≠ some '/' := by
    intro hslash
    have hnil := getLast?_pieces hslash
    obtain ⟨m, rest, hrest⟩ := List.exists_cons_of_ne_nil (l := p.reverse) (by simpa using hp)
    rw [hpieces, hrest, List.getLast?_cons_cons, ← hrest] at hnil
    exact (h [] (List.mem_reverse.mp (List.mem_of_getLast? hnil))).ne_nil rfl
  simp only [names, hfilter, hlast, false_and, if_false]

/-- Two places have different texts. -/
theorem text_inj {p q : Place} (hp : ∀ m ∈ p, IsClean m) (hq : ∀ m ∈ q, IsClean m)
    (h : p.text = q.text) : p = q := by
  have hnames := names_text hp
  rw [h, names_text hq] at hnames
  exact (List.reverse_inj.mp hnames).symm

@[simp] theorem Text.byteCount_append (t u : Text) :
    Text.byteCount (t ++ u) = Text.byteCount t + Text.byteCount u := by
  induction t with
  | nil => simp [Text.byteCount]
  | cons c t ih =>
    simp only [Text.byteCount, List.cons_append, List.foldr_cons] at ih ⊢
    omega

theorem Place.byteCount_append (p q : Place) :
    Place.byteCount (p ++ q) = Place.byteCount p + Place.byteCount q := by
  induction p with
  | nil => simp [Place.byteCount]
  | cons name p ih =>
    simp only [Place.byteCount, List.cons_append, List.foldr_cons] at ih ⊢
    omega

theorem Place.byteCount_reverse (p : Place) : Place.byteCount p.reverse = Place.byteCount p := by
  induction p with
  | nil => rfl
  | cons name p ih =>
    rw [List.reverse_cons, Place.byteCount_append, ih]
    simp only [Place.byteCount, List.foldr_cons, List.foldr_nil]
    omega

/-- The text of a place takes as many bytes as the place. -/
theorem byteCount_text {p : Place} (hp : p ≠ []) : Text.byteCount p.text = p.byteCount := by
  have hflat : ∀ ns : Place, Text.byteCount (ns.flatMap ('/' :: ·)) = ns.byteCount := by
    intro ns
    induction ns with
    | nil => rfl
    | cons m ns ih =>
      have hslash : Text.byteCount ('/' :: m) = Text.byteCount m + 1 :=
        Nat.add_comm (Char.utf8Size '/') (Text.byteCount m)
      rw [List.flatMap_cons, Text.byteCount_append, ih, hslash]
      rfl
  have hrev : p.reverse ≠ [] := by simpa using hp
  rw [Place.text, ofNames, if_neg hrev, hflat, Place.byteCount_reverse]

end CompileJournal
