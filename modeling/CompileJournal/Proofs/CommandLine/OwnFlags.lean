import CompileJournal.Proofs.CommandLine.Segments

/-!
# The settings that the program's own flags make

Of all flags that are known, some belong to this program and the others to the library it reads
them with.  The own ones never end a run by themselves: with values that can be read they make
settings, and each setting has the value that it was given last; only the spellings of compiler
flags with a value add up.

* `Assignment.IsOwn`, `Assignment.IsReadable`: the own flags, and values that can be read;
* `lastValue`, `isOn`, `allValues`: what they leave a setting or a switch at;
* `read_own`: what own flags make.
-/

namespace CompileJournal

open CommandLine

/-! ## 1. Own flags -/

/-- Whether a switch is one of the program's own. -/
def Switch.isOwn : Switch → Bool
  | replay | dryRun | verbose => true
  | onlyCheckArguments | onlyCheckFlags | help | idle => false

/-- Whether a setting is one of the program's own. -/
def Setting.isOwn : Setting → Bool
  | database | timeout | driver | wrapper | alternative | exportPath | valueFlag => true
  | verbosity | errorThreshold | idle => false

/-- Whether an assignment is one to a flag of the program's own. -/
def CommandLine.Assignment.IsOwn (a : Assignment) : Prop :=
  match a.flag.kind with
  | .switch switch => switch.isOwn = true
  | .setting setting => setting.isOwn = true

/-- Whether the value of an assignment can be read as what its flag takes. -/
def CommandLine.Assignment.IsReadable (a : Assignment) : Prop :=
  match a.flag.kind with
  | .switch _ => (Settings.boolean? a.value).isSome
  | .setting .timeout => (Numeral.real? a.value).isSome
  | .setting _ => True

/-- A list of flags, each complete and one of the program's own, with a value that can be read. -/
structure CommandLine.OwnFlags (flags : List Segment) (made : List Assignment) : Prop where
  complete : ∀ s ∈ flags, s.IsComplete
  assignments : flags.map Segment.assignment = made.map .ok
  own : ∀ a ∈ made, a.IsOwn
  readable : ∀ a ∈ made, a.IsReadable

/-- The value that a setting has after some assignments. -/
def CommandLine.valueAfter (setting : Setting) (value : Text) (made : List Assignment) : Text :=
  made.foldl (fun value a => if a.flag.kind = .setting setting then a.value else value) value

/-- The value that a setting was given last, or none. -/
def CommandLine.lastValue (setting : Setting) (made : List Assignment) : Text :=
  valueAfter setting [] made

/-- Whether a switch is on after some assignments. -/
def CommandLine.isOnAfter (switch : Switch) (on : Bool) (made : List Assignment) : Bool :=
  made.foldl (fun on a =>
    if a.flag.kind = .switch switch then (Settings.boolean? a.value).getD on else on) on

/-- Whether a switch was left on. -/
def CommandLine.isOn (switch : Switch) (made : List Assignment) : Bool :=
  isOnAfter switch false made

/-- All values that a setting was given. -/
def CommandLine.allValues (setting : Setting) (made : List Assignment) : List Text :=
  (made.filter fun a => a.flag.kind = .setting setting).map (·.value)

/-! ## 2. What they make -/

/-- Whether a setting holds the text it was given last. -/
def Setting.isText : Setting → Bool
  | database | driver | wrapper | alternative | exportPath => true
  | timeout | valueFlag | verbosity | errorThreshold | idle => false

namespace Settings

/-- The text that a setting holds. -/
def text (s : Settings) : Setting → Text
  | .database => s.database
  | .driver => s.driver
  | .wrapper => s.wrapper
  | .alternative => s.alternative
  | .exportPath => s.exportPath
  | .timeout | .valueFlag | .verbosity | .errorThreshold | .idle => []

/-- Whether one of the program's own switches is on. -/
def switch (s : Settings) : Switch → Bool
  | .replay => s.replay
  | .dryRun => s.dryRun
  | .verbose => s.verbose
  | .onlyCheckArguments | .onlyCheckFlags | .help | .idle => false

/-- Settings that follow from others by assignments to own flags. -/
structure Follows (s : Settings) (made : List Assignment) (t : Settings) : Prop where
  text : ∀ x, x.isText = true → t.text x = valueAfter x (s.text x) made
  switch : ∀ x, x.isOwn = true → t.switch x = isOnAfter x (s.switch x) made
  valueFlags : t.valueFlags = s.valueFlags ++ allValues .valueFlag made
  onlyCheckArguments : t.onlyCheckArguments = s.onlyCheckArguments

theorem Follows.cons {s t u : Settings} {a : Assignment} {made : List Assignment}
    (h : Follows s [a] t) (h' : Follows t made u) : Follows s (a :: made) u where
  text x hx := by
    rw [h'.text x hx, h.text x hx]
    rfl
  switch x hx := by
    rw [h'.switch x hx, h.switch x hx]
    rfl
  valueFlags := by
    rw [h'.valueFlags, h.valueFlags, List.append_assoc, allValues, allValues, allValues,
      ← List.map_append, ← List.filter_append, List.singleton_append]
  onlyCheckArguments := h'.onlyCheckArguments.trans h.onlyCheckArguments

theorem assign_own {a : Assignment} (hown : a.IsOwn) (hreadable : a.IsReadable) (s : Settings) :
    ∃ t, s.assign a = .ok t ∧ Follows s [a] t := by
  unfold Assignment.IsOwn at hown
  unfold Assignment.IsReadable at hreadable
  unfold assign
  cases hkind : a.flag.kind with
  | switch switch =>
    simp only [hkind] at hown hreadable ⊢
    obtain ⟨on, hon⟩ := Option.isSome_iff_exists.mp hreadable
    rw [hon]
    cases switch with
    | replay | dryRun | verbose =>
      refine ⟨_, rfl, ?_, ?_, by simp [allValues, hkind], rfl⟩
      · intro x _
        cases x <;> simp [text, valueAfter, hkind]
      · intro x _
        cases x <;> simp [Settings.switch, isOnAfter, hkind, hon]
    | onlyCheckArguments | onlyCheckFlags | help | idle =>
      exact absurd hown (by simp [Switch.isOwn])
  | setting setting =>
    simp only [hkind] at hown hreadable ⊢
    have hswitch : ∀ {t : Settings}, (∀ x, t.switch x = s.switch x) →
        ∀ x, x.isOwn = true → t.switch x = isOnAfter x (s.switch x) [a] := by
      intro t ht x _
      simp [isOnAfter, hkind, ht x]
    cases setting with
    | database | driver | wrapper | alternative | exportPath | valueFlag =>
      refine ⟨_, rfl, ?_, hswitch fun x => by cases x <;> rfl, by simp [allValues, hkind], rfl⟩
      intro x hx
      cases x <;> simp [Setting.isText] at hx <;> simp [text, valueAfter, hkind]
    | timeout =>
      obtain ⟨time, htime⟩ := Option.isSome_iff_exists.mp hreadable
      refine ⟨{ s with timeout := time }, ?_, ?_, hswitch fun x => by cases x <;> rfl,
        by simp [allValues, hkind], rfl⟩
      · simp only [assignSetting, htime]
      · intro x hx
        cases x <;> simp [Setting.isText] at hx <;> simp [text, valueAfter, hkind]
    | verbosity | errorThreshold | idle => exact absurd hown (by simp [Setting.isOwn])

theorem foldlM_assign_own {made : List Assignment} (hown : ∀ a ∈ made, a.IsOwn)
    (hreadable : ∀ a ∈ made, a.IsReadable) (s : Settings) :
    ∃ t, made.foldlM assign s = .ok t ∧ Follows s made t := by
  induction made generalizing s with
  | nil => exact ⟨s, rfl, fun _ _ => rfl, fun _ _ => rfl, (List.append_nil _).symm, rfl⟩
  | cons a made ih =>
    obtain ⟨t, ht, hfollows⟩ :=
      assign_own (hown a List.mem_cons_self) (hreadable a List.mem_cons_self) s
    obtain ⟨u, hu, hlater⟩ :=
      ih (fun b hb => hown b (List.mem_cons_of_mem _ hb))
        (fun b hb => hreadable b (List.mem_cons_of_mem _ hb)) t
    refine ⟨u, ?_, hfollows.cons hlater⟩
    rw [List.foldlM_cons, ht]
    exact hu

end Settings

namespace CommandLine

theorem readSegments_of_made {flags : List Segment} {made : List Assignment}
    (h : flags.map Segment.assignment = made.map .ok) :
    readSegments flags = (made, .complete []) := by
  induction flags generalizing made with
  | nil =>
    obtain rfl := List.map_eq_nil_iff.mp h.symm
    rfl
  | cons s flags ih =>
    cases made with
    | nil => exact absurd h (by simp)
    | cons a made =>
      rw [List.map_cons, List.map_cons] at h
      obtain ⟨ha, hmade⟩ := List.cons.inj h
      simp [readSegments_cons, ha, ih hmade]

theorem wellShaped_of_complete {flags : List Segment} (h : ∀ s ∈ flags, s.IsComplete) :
    WellShaped flags := by
  induction flags with
  | nil => trivial
  | cons s flags ih =>
    exact ⟨.inl (h s List.mem_cons_self), ih fun t ht => h t (List.mem_cons_of_mem _ ht)⟩

/-- **Own flags with values that can be read make settings**, in which every setting has the value
it was given last. -/
theorem read_own {flags : List Segment} {made : List Assignment} (h : OwnFlags flags made) :
    ∃ settings, Settings.read (flags.flatMap Segment.tokens) = .ok settings ∧
      Settings.Follows {} made settings := by
  have hassign : assignments (flags.flatMap Segment.tokens) = (made, .complete []) := by
    rw [assignments_segments (wellShaped_of_complete h.complete),
      readSegments_of_made h.assignments]
  obtain ⟨settings, hfold, hfollows⟩ := Settings.foldlM_assign_own h.own h.readable {}
  exact ⟨settings, (read_of_complete hassign).trans hfold, hfollows⟩

end CommandLine

end CompileJournal
