import CompileJournal.CommandLine.Split
import CompileJournal.CommandLine.Settings
import Mathlib.Tactic.Common

/-!
# The two scanners of the flags

The command line is scanned twice.  `split` decides how many tokens at its start are flags, by
counting the tokens each flag takes up; `Settings.read` then reads those tokens from left to
right without being told where one flag ends.  Nobody looks at what the second scan leaves over,
so a disagreement would lose tokens without a word.

Here the steps of the first scan are made visible as *segments*, a flag token with the token that
was skipped as its value, and the second scan is shown to make exactly the assignments that the
segments say one by one.

* `extent_induction`: how the first scan goes on, and where it stops;
* `own_eq_segments`, `split_eq`: the segments are the flags, and nothing else is taken away but
  the terminator;
* `assignments_segments`: reading tokens that come in segments;
* `read_follows_split`: the two scans agree, and reading consumes every token or reports why it
  cannot.
-/

namespace CompileJournal.CommandLine

/-! ## 1. Segments -/

/-- What the first scan steps over at once: a token taken as a flag, and the token after it where
that one is skipped as the flag's value. -/
structure Segment where
  token : Text
  value : Option Text := none
  deriving DecidableEq, Repr

namespace Segment

/-- The tokens of a segment as they stand on the command line. -/
def tokens (s : Segment) : List Text := s.token :: s.value.toList

/-- The assignment a segment makes, seen by itself. -/
def assignment (s : Segment) : Except FlagError Assignment :=
  let spelled := Text.cut '=' (s.token.drop 2)
  match Flag.find? spelled.1 with
  | some flag =>
    match spelled.2, s.value with
    | some joined, _ => .ok ⟨flag, joined⟩
    | none, some next => .ok ⟨flag, next⟩
    | none, none =>
      if flag.kind.isSwitch then .ok ⟨flag, "true"⟩ else .error (.missingValue s.token)
  | none =>
    match Flag.findNegated? spelled.1 with
    | none => .error (.unknown s.token)
    | some flag =>
      if spelled.2.isSome then .error (.takesNoArgument s.token) else .ok ⟨flag, "false"⟩

/-- Whether a segment holds all tokens that its flag takes up. -/
def IsComplete (s : Segment) : Prop :=
  (extent? s.token = some .alone ∧ s.value = none) ∨
    (extent? s.token = some .withNext ∧ s.value.isSome)

/-- Whether a segment is a setting that still lacks its value. -/
def IsCutOff (s : Segment) : Prop := extent? s.token = some .withNext ∧ s.value = none

end Segment

/-- Whether segments can follow each other: only the last one may lack its value. -/
def WellShaped : List Segment → Prop
  | [] => True
  | s :: later => (s.IsComplete ∨ s.IsCutOff ∧ later = []) ∧ WellShaped later

theorem fits_of_mem {flags : List Segment} (h : WellShaped flags) {s : Segment} (hs : s ∈ flags) :
    s.IsComplete ∨ s.IsCutOff := by
  induction flags with
  | nil => exact absurd hs (by simp)
  | cons t flags ih =>
    rcases List.mem_cons.mp hs with rfl | hs
    · exact h.1.imp_right And.left
    · exact ih h.2 hs

/-- What segments make one after the other, up to the first one that cannot be read. -/
def readSegments : List Segment → List Assignment × Ending
  | [] => ([], .complete [])
  | s :: later =>
    match s.assignment with
    | .error e => ([], .refused e)
    | .ok a => (a :: (readSegments later).1, (readSegments later).2)

theorem readSegments_cons (s : Segment) (later : List Segment) :
    readSegments (s :: later) =
      match s.assignment with
      | .error e => ([], .refused e)
      | .ok a => (a :: (readSegments later).1, (readSegments later).2) :=
  rfl

/-- The steps of the first scan. -/
def segments : List Text → List Segment
  | [] => []
  | token :: rest =>
    match extent? token with
    | none => []
    | some .alone => { token := token } :: segments rest
    | some .withNext =>
      match rest with
      | [] => [{ token := token }]
      | value :: rest => { token := token, value := some value } :: segments rest

/-- **The first scan goes from one extent to the next.**  What holds wherever it stops, and is kept
by a token that stands alone and by one that stands with its value, holds of all command lines. -/
@[elab_as_elim]
theorem extent_induction {motive : List Text → Prop} (nil : motive [])
    (stop : ∀ token rest, extent? token = none → motive (token :: rest))
    (alone : ∀ token rest, extent? token = some .alone → motive rest → motive (token :: rest))
    (last : ∀ token, extent? token = some .withNext → motive [token])
    (withNext : ∀ token value rest, extent? token = some .withNext → motive rest →
      motive (token :: value :: rest)) : ∀ arguments, motive arguments
  | [] => nil
  | token :: rest =>
    match he : extent? token with
    | none => stop token rest he
    | some .alone => alone token rest he (extent_induction nil stop alone last withNext rest)
    | some .withNext =>
      match rest with
      | [] => last token he
      | value :: rest =>
        withNext token value rest he (extent_induction nil stop alone last withNext rest)

theorem segments_cons (token : Text) (rest : List Text) :
    segments (token :: rest) =
      match extent? token with
      | none => []
      | some .alone => { token := token } :: segments rest
      | some .withNext =>
        match rest with
        | [] => [{ token := token }]
        | value :: rest => { token := token, value := some value } :: segments rest :=
  segments.eq_def _

theorem segments_wellShaped (arguments : List Text) : WellShaped (segments arguments) := by
  induction arguments using extent_induction with
  | nil => trivial
  | stop token rest he =>
    rw [segments_cons, he]
    trivial
  | alone token rest he ih =>
    rw [segments_cons, he]
    exact ⟨.inl (.inl ⟨he, rfl⟩), ih⟩
  | last token he =>
    rw [segments_cons, he]
    exact ⟨.inr ⟨⟨he, rfl⟩, rfl⟩, trivial⟩
  | withNext token value rest he ih =>
    rw [segments_cons, he]
    exact ⟨.inl (.inr ⟨he, rfl⟩), ih⟩

/-! ## 2. The first scan -/

/-- A flag is no terminator. -/
theorem ne_terminator {token : Text} {x : Extent} (h : extent? token = some x) :
    token ≠ terminator := by
  rintro rfl
  have hnone : extent? terminator = none := by decide
  rw [hnone] at h
  exact absurd h (by simp)

@[simp] theorem split_nil : split [] = ⟨[], []⟩ :=
  rfl

/-- The scan is led by the first token. -/
theorem split_cons (token : Text) (rest : List Text) :
    split (token :: rest) =
      if token = terminator then ⟨[], rest⟩
      else match extent? token with
        | none => ⟨[], token :: rest⟩
        | some .alone => (split rest).addOwn token
        | some .withNext =>
          match rest with
          | [] => ⟨[token], []⟩
          | value :: later => ((split later).addOwn value).addOwn token :=
  split.eq_def _

@[simp] theorem split_terminator (rest : List Text) : split (terminator :: rest) = ⟨[], rest⟩ := by
  rw [split_cons, if_pos rfl]

theorem split_stop {token : Text} (h : extent? token = none) (hne : token ≠ terminator)
    (rest : List Text) : split (token :: rest) = ⟨[], token :: rest⟩ := by
  rw [split_cons, if_neg hne, h]

theorem split_alone {token : Text} (h : extent? token = some .alone) (rest : List Text) :
    split (token :: rest) = (split rest).addOwn token := by
  rw [split_cons, if_neg (ne_terminator h), h]

theorem split_last {token : Text} (h : extent? token = some .withNext) :
    split [token] = ⟨[token], []⟩ := by
  rw [split_cons, if_neg (ne_terminator h), h]

theorem split_withNext {token : Text} (h : extent? token = some .withNext) (value : Text)
    (rest : List Text) :
    split (token :: value :: rest) = ((split rest).addOwn value).addOwn token := by
  rw [split_cons, if_neg (ne_terminator h), h]

/-- The flags are the tokens of the segments. -/
theorem own_eq_segments (arguments : List Text) :
    (split arguments).own = (segments arguments).flatMap Segment.tokens := by
  induction arguments using extent_induction with
  | nil => rfl
  | stop token rest he =>
    rw [segments_cons, he]
    by_cases hterm : token = terminator
    · rw [hterm, split_terminator, List.flatMap_nil]
    · rw [split_stop he hterm, List.flatMap_nil]
  | alone token rest he ih =>
    rw [segments_cons, he, split_alone he, Parts.addOwn, ih]
    rfl
  | last token he =>
    rw [segments_cons, he, split_last he]
    rfl
  | withNext token value rest he ih =>
    rw [segments_cons, he, split_withNext he, Parts.addOwn, Parts.addOwn, ih]
    rfl

/-- Splitting takes nothing away but a terminator between the two parts. -/
theorem split_eq (arguments : List Text) :
    arguments = (split arguments).own ++ (split arguments).command ∨
      arguments = (split arguments).own ++ terminator :: (split arguments).command := by
  induction arguments using extent_induction with
  | nil => exact .inl rfl
  | stop token rest he =>
    by_cases hterm : token = terminator
    · rw [hterm, split_terminator]
      exact .inr rfl
    · rw [split_stop he hterm]
      exact .inl rfl
  | alone token rest he ih =>
    rw [split_alone he]
    rcases ih with ih | ih
    · exact .inl (congrArg (token :: ·) ih)
    · exact .inr (congrArg (token :: ·) ih)
  | last token he =>
    rw [split_last he]
    exact .inl rfl
  | withNext token value rest he ih =>
    rw [split_withNext he]
    rcases ih with ih | ih
    · exact .inl (congrArg (token :: value :: ·) ih)
    · exact .inr (congrArg (token :: value :: ·) ih)

/-- Complete segments are taken as flags, whatever comes after them. -/
theorem split_segments {flags : List Segment} (h : ∀ s ∈ flags, s.IsComplete)
    (rest : List Text) :
    split (flags.flatMap Segment.tokens ++ rest)
      = ⟨flags.flatMap Segment.tokens ++ (split rest).own, (split rest).command⟩ := by
  induction flags with
  | nil => rfl
  | cons s flags ih =>
    have ih := ih fun t ht => h t (List.mem_cons_of_mem _ ht)
    rw [List.flatMap_cons, List.append_assoc]
    rcases h s List.mem_cons_self with ⟨he, hv⟩ | ⟨he, hv⟩
    · simp only [Segment.tokens, hv, Option.toList_none, List.cons_append, List.nil_append]
      rw [split_alone he, ih, Parts.addOwn]
    · obtain ⟨value, hv⟩ := Option.isSome_iff_exists.mp hv
      simp only [Segment.tokens, hv, Option.toList_some, List.cons_append, List.nil_append]
      rw [split_withNext he, ih, Parts.addOwn, Parts.addOwn]

/-! ## 3. The second scan -/

/-- The second scan does not stop at a flag of the first one, and cuts it at the same place. -/
theorem request_eq {token : Text} {x : Extent} (h : extent? token = some x) :
    request token =
      match Flag.find? (Text.cut '=' (token.drop 2)).1 with
      | some flag => requestOf flag (Text.cut '=' (token.drop 2)).2
      | none =>
        match Flag.findNegated? (Text.cut '=' (token.drop 2)).1 with
        | some flag => requestOff token flag (Text.cut '=' (token.drop 2)).2
        | none => .refuse (.unknown token) := by
  have hne := ne_terminator h
  unfold extent? at h
  split at h
  · exact absurd h (by simp)
  · next hb =>
    have hdash : Text.beginsWith token ['-', '-'] = true := by simpa [terminator] using hb
    have hstop : ¬(!Text.beginsWith token ['-'] ∨ token = ['-', '-']) := by
      rintro (hstart | hterm)
      · match token, hdash with
        | [], hdash => simp [Text.beginsWith] at hdash
        | c :: rest, hdash => simp_all [Text.beginsWith, List.isPrefixOf]
      · exact hne hterm
    have hspelling : spelling token = Text.cut '=' (token.drop 2) := by rw [spelling, if_pos hdash]
    have hrequest : request token = _ := if_neg hstop
    simp only [hspelling] at hrequest
    exact hrequest

/-- What a token with an extent spells, in the words of the flag table. -/
theorem extent_cases {token : Text} {x : Extent} (h : extent? token = some x) :
    (∃ flag, Flag.find? (Text.cut '=' (token.drop 2)).1 = some flag ∧
      (x = .withNext ↔ (Text.cut '=' (token.drop 2)).2 = none ∧ flag.kind.isSwitch = false)) ∨
    (x = .alone ∧ Flag.find? (Text.cut '=' (token.drop 2)).1 = none ∧
      ∃ flag, Flag.findNegated? (Text.cut '=' (token.drop 2)).1 = some flag) := by
  unfold extent? at h
  split at h
  · exact absurd h (by simp)
  · simp only at h
    split at h
    · next flag hfind =>
      left
      refine ⟨flag, hfind, ?_⟩
      split at h
      · next hw => simp_all
      · next hw =>
        have hx : x = .alone := by simpa using h.symm
        subst hx
        simpa using hw
    · next hfind =>
      right
      cases hn : Flag.findNegated? (Text.cut '=' (token.drop 2)).1 with
      | none => simp [hn] at h
      | some flag => exact ⟨by simpa [hn] using h.symm, hfind, flag, rfl⟩

/-- **A setting that stands alone makes the second scan wait for the same next token**, and that
token is its value whatever it looks like. -/
theorem request_of_withNext {token : Text} (h : extent? token = some .withNext) :
    ∃ flag, request token = .await flag ∧
      (∀ value : Text,
        ({ token := token, value := some value } : Segment).assignment = .ok ⟨flag, value⟩) ∧
      ({ token := token } : Segment).assignment = .error (.missingValue token) := by
  rcases extent_cases h with ⟨flag, hfind, hw⟩ | ⟨hx, -⟩
  · obtain ⟨hjoined, hkind⟩ := hw.mp rfl
    refine ⟨flag, ?_, fun value => ?_, ?_⟩
    · simp [request_eq h, hfind, hjoined, requestOf, hkind]
    · simp [Segment.assignment, hfind, hjoined]
    · simp [Segment.assignment, hfind, hjoined, hkind]
  · exact absurd hx (by simp)

/-- **A token that the first scan takes alone is all that the second scan looks at.** -/
theorem request_of_alone {token : Text} (h : extent? token = some .alone) :
    (∃ a, request token = .assign a ∧ ({ token := token } : Segment).assignment = .ok a) ∨
      (request token = .refuse (.takesNoArgument token) ∧
        ({ token := token } : Segment).assignment = .error (.takesNoArgument token)) := by
  rcases extent_cases h with ⟨flag, hfind, hw⟩ | ⟨-, hfind, flag, hneg⟩
  · left
    cases hjoined : (Text.cut '=' (token.drop 2)).2 with
    | some value =>
      exact ⟨⟨flag, value⟩, by simp [request_eq h, hfind, hjoined, requestOf],
        by simp [Segment.assignment, hfind, hjoined]⟩
    | none =>
      have hkind : flag.kind.isSwitch = true := by simpa [hjoined] using hw
      exact ⟨⟨flag, "true"⟩,
        by simp [request_eq h, hfind, hjoined, requestOf, hkind],
        by simp [Segment.assignment, hfind, hjoined, hkind]⟩
  · cases hjoined : (Text.cut '=' (token.drop 2)).2 with
    | some value =>
      right
      exact ⟨by simp [request_eq h, hfind, hneg, hjoined, requestOff],
        by simp [Segment.assignment, hfind, hneg, hjoined]⟩
    | none =>
      left
      exact ⟨⟨flag, "false"⟩,
        by simp [request_eq h, hfind, hneg, hjoined, requestOff],
        by simp [Segment.assignment, hfind, hneg, hjoined]⟩

/-- The second scan is led by what the first token asks for. -/
theorem assignments_cons (token : Text) (rest : List Text) :
    assignments (token :: rest) =
      match request token with
      | .stop => ([], .complete (token :: rest))
      | .refuse e => ([], .refused e)
      | .assign a =>
        let later := assignments rest
        (a :: later.1, later.2)
      | .await flag =>
        match rest with
        | [] => ([], .refused (.missingValue token))
        | value :: rest =>
          let later := assignments rest
          (⟨flag, value⟩ :: later.1, later.2) :=
  assignments.eq_def _

theorem assignments_assign {token : Text} {a : Assignment} (h : request token = .assign a)
    (rest : List Text) :
    assignments (token :: rest) = (a :: (assignments rest).1, (assignments rest).2) := by
  rw [assignments_cons, h]

theorem assignments_refuse {token : Text} {e : FlagError} (h : request token = .refuse e)
    (rest : List Text) : assignments (token :: rest) = ([], .refused e) := by
  rw [assignments_cons, h]

theorem assignments_await {token : Text} {flag : Flag} (h : request token = .await flag)
    (value : Text) (rest : List Text) :
    assignments (token :: value :: rest)
      = (⟨flag, value⟩ :: (assignments rest).1, (assignments rest).2) := by
  rw [assignments_cons, h]

theorem assignments_await_last {token : Text} {flag : Flag} (h : request token = .await flag) :
    assignments [token] = ([], .refused (.missingValue token)) := by
  rw [assignments_cons, h]

/-- **Tokens that come in segments are read segment by segment.** -/
theorem assignments_segments {flags : List Segment} (h : WellShaped flags) :
    assignments (flags.flatMap Segment.tokens) = readSegments flags := by
  induction flags with
  | nil => rfl
  | cons s flags ih =>
    obtain ⟨hs, hlater⟩ := h
    have ih := ih hlater
    obtain ⟨token, next⟩ := s
    rw [List.flatMap_cons]
    rcases hs with (⟨he, rfl⟩ | ⟨he, hv⟩) | ⟨⟨he, rfl⟩, rfl⟩
    · show assignments (token :: flags.flatMap Segment.tokens) = _
      rcases request_of_alone he with ⟨a, hreq, hread⟩ | ⟨hreq, hread⟩
      · simp only [assignments_assign hreq, readSegments_cons, hread, ih]
      · simp only [assignments_refuse hreq, readSegments_cons, hread]
    · obtain ⟨value, rfl⟩ := Option.isSome_iff_exists.mp hv
      obtain ⟨flag, hreq, hread, -⟩ := request_of_withNext he
      show assignments (token :: value :: flags.flatMap Segment.tokens) = _
      simp only [assignments_await hreq, readSegments_cons, hread value, ih]
    · obtain ⟨flag, hreq, -, hread⟩ := request_of_withNext he
      show assignments [token] = _
      simp only [assignments_await_last hreq, readSegments_cons, hread]

/-! ## 4. How reading ends -/

/-- A segment of the first scan says an assignment, lacks its value, or gives a value to a switch
that is turned off. -/
theorem Segment.assignment_cases {s : Segment} (h : s.IsComplete ∨ s.IsCutOff) :
    (∃ a, s.assignment = .ok a) ∨ s.assignment = .error (.missingValue s.token) ∨
      s.assignment = .error (.takesNoArgument s.token) := by
  obtain ⟨token, next⟩ := s
  rcases h with (⟨he, rfl⟩ | ⟨he, hv⟩) | ⟨he, rfl⟩
  · rcases request_of_alone he with ⟨a, -, hread⟩ | ⟨-, hread⟩
    · exact .inl ⟨a, hread⟩
    · exact .inr (.inr hread)
  · obtain ⟨value, rfl⟩ := Option.isSome_iff_exists.mp hv
    obtain ⟨flag, -, hread, -⟩ := request_of_withNext he
    exact .inl ⟨_, hread value⟩
  · obtain ⟨flag, -, -, hread⟩ := request_of_withNext he
    exact .inr (.inl hread)

/-- A value that was skipped by the first scan is the value of the assignment. -/
theorem Segment.assignment_of_value {s : Segment} (h : s.IsComplete ∨ s.IsCutOff) {value : Text}
    (hv : s.value = some value) :
    ∃ flag, Flag.find? (Text.cut '=' (s.token.drop 2)).1 = some flag ∧
      s.assignment = .ok ⟨flag, value⟩ := by
  obtain ⟨token, next⟩ := s
  subst hv
  have he : extent? token = some .withNext := by
    rcases h with (⟨-, hv⟩ | ⟨he, -⟩) | ⟨-, hv⟩
    · exact absurd hv (by simp)
    · exact he
    · exact absurd hv (by simp)
  rcases extent_cases he with ⟨flag, hfind, hw⟩ | ⟨hx, -⟩
  · exact ⟨flag, hfind, by simp [Segment.assignment, hfind, (hw.mp rfl).1]⟩
  · exact absurd hx (by simp)

/-- Why a segment of the first scan cannot be read. -/
def Segment.Refuses (s : Segment) (e : FlagError) : Prop :=
  s.assignment = .error e ∧ (e = .missingValue s.token ∨ e = .takesNoArgument s.token)

/-- Segments are read to their end, or up to one that cannot be read. -/
theorem readSegments_cases {flags : List Segment} (h : WellShaped flags) :
    (∃ made, flags.map Segment.assignment = made.map .ok ∧
      readSegments flags = (made, .complete [])) ∨
    ∃ s ∈ flags, ∃ e, s.Refuses e ∧ (readSegments flags).2 = .refused e := by
  induction flags with
  | nil => exact .inl ⟨[], rfl, rfl⟩
  | cons s flags ih =>
    obtain ⟨hs, hlater⟩ := h
    rcases s.assignment_cases (hs.imp_right And.left) with ⟨a, ha⟩ | he | he
    · rcases ih hlater with ⟨made, hmap, hread⟩ | ⟨t, ht, e, he, hread⟩
      · exact .inl ⟨a :: made, by simp [ha, hmap], by simp [readSegments_cons, ha, hread]⟩
      · exact .inr ⟨t, List.mem_cons_of_mem _ ht, e, he, by simp [readSegments_cons, ha, hread]⟩
    · exact .inr ⟨s, List.mem_cons_self, _, ⟨he, .inl rfl⟩, by simp [readSegments_cons, he]⟩
    · exact .inr ⟨s, List.mem_cons_self, _, ⟨he, .inr rfl⟩, by simp [readSegments_cons, he]⟩

/-- Carrying out an assignment never meets a token that is no flag. -/
theorem assign_ne_unknown (s : Settings) (a : Assignment) (token : Text) :
    s.assign a ≠ .error (.refused (.unknown token)) := by
  unfold Settings.assign
  split
  · split
    · simp
    · unfold Settings.turn
      split <;> (try split) <;> simp
  · unfold Settings.assignSetting
    split <;> (try split) <;> (try split) <;> simp

theorem foldlM_assign_ne_unknown (made : List Assignment) (s : Settings) (token : Text) :
    made.foldlM Settings.assign s ≠ .error (.refused (.unknown token)) := by
  induction made generalizing s with
  | nil => simp [pure, Except.pure]
  | cons a made ih =>
    rw [List.foldlM_cons]
    cases h : s.assign a with
    | error e =>
      rintro ⟨⟩
      exact assign_ne_unknown s a token h
    | ok t => exact ih t

/-- Tokens that are read to their end make the settings of their assignments. -/
theorem read_of_complete {tokens left : List Text} {made : List Assignment}
    (h : assignments tokens = (made, .complete left)) :
    Settings.read tokens = made.foldlM Settings.assign {} := by
  simp only [Settings.read, h]
  cases made.foldlM Settings.assign {} <;> rfl

/-- Tokens that cannot be read to their end make no settings; the refusal counts unless one of the
assignments before it ended the run. -/
theorem read_of_refused {tokens : List Text} {e : FlagError}
    (h : (assignments tokens).2 = .refused e) :
    Settings.read tokens =
      ((assignments tokens).1.foldlM Settings.assign {}).bind fun _ => .error (.refused e) := by
  simp only [Settings.read, h]
  cases (assignments tokens).1.foldlM Settings.assign {} <;> rfl

/-- **The two scans agree.**  The flags of a command line are the tokens of the first scan's
segments, and the rest of it is the compile command.  Reading the flags makes the assignments of
the segments, in their order, and ends where they end: with every token consumed, or at a segment
that lacks its value or gives one to a switch that is turned off.  A token that the first scan
skipped as a value becomes a value, whatever it looks like.  So reading that succeeds has carried
out all segments, and a token that is no flag is never met. -/
theorem read_follows_split (arguments : List Text) :
    ((split arguments).own = (segments arguments).flatMap Segment.tokens ∧
      (arguments = (split arguments).own ++ (split arguments).command ∨
        arguments = (split arguments).own ++ terminator :: (split arguments).command)) ∧
    assignments (split arguments).own = readSegments (segments arguments) ∧
    (∀ s ∈ segments arguments, ∀ value, s.value = some value →
      ∃ flag, Flag.find? (Text.cut '=' (s.token.drop 2)).1 = some flag ∧
        s.assignment = .ok ⟨flag, value⟩) ∧
    ((∃ made, (segments arguments).map Segment.assignment = made.map .ok ∧
        assignments (split arguments).own = (made, .complete [])) ∨
      ∃ s ∈ segments arguments, ∃ e, s.Refuses e ∧
        (assignments (split arguments).own).2 = .refused e) ∧
    (∀ settings, Settings.read (split arguments).own = .ok settings →
      ∃ made : List Assignment, (segments arguments).map Segment.assignment = made.map .ok ∧
        made.foldlM Settings.assign {} = .ok settings) ∧
    ∀ token, Settings.read (split arguments).own ≠ .error (.refused (.unknown token)) := by
  have hshape := segments_wellShaped arguments
  have hread : assignments (split arguments).own = readSegments (segments arguments) := by
    rw [own_eq_segments, assignments_segments hshape]
  refine ⟨⟨own_eq_segments arguments, split_eq arguments⟩, hread, ?_, ?_, ?_, ?_⟩
  · intro s hs value hv
    exact s.assignment_of_value (fits_of_mem hshape hs) hv
  · rw [hread]
    exact readSegments_cases hshape
  · intro settings hok
    rcases readSegments_cases hshape with ⟨made, hmap, hends⟩ | ⟨s, -, e, -, hends⟩
    · exact ⟨made, hmap, by rw [← read_of_complete (hread.trans hends), hok]⟩
    · rw [read_of_refused (hread ▸ hends)] at hok
      cases hfold : (assignments (split arguments).own).1.foldlM Settings.assign {} <;>
        simp [hfold, Except.bind] at hok
  · intro token hunknown
    rcases readSegments_cases hshape with ⟨made, -, hends⟩ | ⟨s, -, e, ⟨-, he⟩, hends⟩
    · rw [read_of_complete (hread.trans hends)] at hunknown
      exact foldlM_assign_ne_unknown made {} token hunknown
    · rw [read_of_refused (hread ▸ hends)] at hunknown
      cases hfold : (assignments (split arguments).own).1.foldlM Settings.assign {} with
      | error halt =>
        rw [hfold] at hunknown
        cases hunknown
        exact foldlM_assign_ne_unknown _ {} token hfold
      | ok t => rcases he with rfl | rfl <;> simp [hfold, Except.bind] at hunknown

end CompileJournal.CommandLine
