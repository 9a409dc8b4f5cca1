import CompileJournal.Proofs.CommandLine.Footprint
import CompileJournal.Proofs.CommandLine.Transparent
import CompileJournal.Proofs.Words.RoundTrip

/-!
# A dry run tells the truth

A dry run is asked what a run would do.  It reads the same flags and one switch more, and up to the
end of its work nothing looks at that switch, so it leaves the same world and fails in the same
ways.  Where a command has been built the two part: the dry run prints it, and the other run hands
it over.  What is printed is read back as the words that are handed over, so that a dry run can be
trusted, whatever is in the words.

* `read_dry`, `not_dry_of_read`: the switch in front of flags that do not turn it;
* `Building`: a run that has built a command, and `Building.run_eq`: what it does then;
* `run_dry_of_isEmpty`: a run that does not get that far;
* `Foretells`: what a dry run says about a run that does;
* `dry_run_foretells`: all of it.
-/

namespace CompileJournal

variable {w w' : World}

/-! ## 1. The switch -/

/-- Whether an assignment turns the switch of the dry run, on or off. -/
def CommandLine.Assignment.TurnsDry (a : Assignment) : Prop :=
  a.flag.kind = .switch .dryRun ∧ (Settings.boolean? a.value).isSome

namespace Settings

/-- The same settings with the switch of the dry run on or off. -/
def withDry (settings : Settings) (on : Bool) : Settings := { settings with dryRun := on }

/-- Nothing but the switch itself depends on it while the flags are read. -/
theorem assign_withDry {a : CommandLine.Assignment} (ha : ¬a.TurnsDry) (s : Settings) (on : Bool) :
    (s.withDry on).assign a = (s.assign a).map (·.withDry on) := by
  unfold assign
  cases hkind : a.flag.kind with
  | switch switch =>
    simp only
    cases hvalue : boolean? a.value with
    | none => rfl
    | some value =>
      cases switch with
      | dryRun => exact absurd ⟨hkind, by simp [hvalue]⟩ ha
      | onlyCheckFlags | help => cases value <;> rfl
      | replay | verbose | onlyCheckArguments | idle => rfl
  | setting setting =>
    cases setting with
    | timeout =>
      simp only [assignSetting]
      split <;> rfl
    | verbosity =>
      simp only [assignSetting]
      split
      · rfl
      · split <;> rfl
    | errorThreshold =>
      simp only [assignSetting]
      split <;> rfl
    | database | driver | wrapper | alternative | exportPath | valueFlag | idle => rfl

theorem foldlM_assign_withDry {made : List CommandLine.Assignment}
    (hmade : ∀ a ∈ made, ¬a.TurnsDry) (s : Settings) (on : Bool) :
    made.foldlM assign (s.withDry on) = (made.foldlM assign s).map (·.withDry on) := by
  induction made generalizing s with
  | nil => rfl
  | cons a made ih =>
    rw [List.foldlM_cons, List.foldlM_cons, assign_withDry (hmade a List.mem_cons_self)]
    cases s.assign a with
    | error e => rfl
    | ok t => exact ih (fun b hb => hmade b (List.mem_cons_of_mem _ hb)) t

end Settings

namespace CommandLine

variable {settings : Settings} {tokens own : List Text} {refusal : Option Errno}

/-- The token that asks for a dry run. -/
def dryToken : Text := "--dry_run"

theorem split_dry (tokens : List Text) :
    split (dryToken :: tokens) = (split tokens).addOwn dryToken :=
  split_alone (by decide) tokens

/-- The switch in front of flags that do not turn it is on in the end, and that is all. -/
theorem read_dry (hown : ∀ a ∈ (assignments own).1, ¬a.TurnsDry) :
    Settings.read (dryToken :: own) = (Settings.read own).map (·.withDry true) := by
  have hrequest : request dryToken = .assign ⟨⟨"dry_run", .switch .dryRun⟩, "true"⟩ := by decide
  have hfirst : ({} : Settings).assign ⟨⟨"dry_run", .switch .dryRun⟩, "true"⟩ =
      .ok (({} : Settings).withDry true) := by
    decide
  have hfold := Settings.foldlM_assign_withDry hown {} true
  simp only [Settings.read, assignments_assign hrequest, List.foldlM_cons, hfirst]
  simp only [bind, Except.bind, hfold]
  cases (assignments own).1.foldlM Settings.assign {} with
  | error e => rfl
  | ok s => cases (assignments own).2 <;> rfl

/-- Flags that do not turn the switch leave it off. -/
theorem not_dry_of_read (hown : ∀ a ∈ (assignments own).1, ¬a.TurnsDry)
    (hread : Settings.read own = .ok settings) : settings.dryRun = false := by
  have hfold : (assignments own).1.foldlM Settings.assign {} =
      ((assignments own).1.foldlM Settings.assign {}).map (·.withDry false) :=
    Settings.foldlM_assign_withDry hown {} false
  unfold Settings.read at hread
  cases hmade : (assignments own).1.foldlM Settings.assign {} with
  | error e =>
    simp only [hmade] at hread
    exact absurd hread (by simp)
  | ok s =>
    rw [hmade] at hfold
    have hs : s = s.withDry false := Except.ok.inj hfold
    simp only [hmade] at hread
    cases hends : (assignments own).2 with
    | refused e =>
      simp only [hends] at hread
      exact absurd hread (by simp)
    | complete left =>
      simp only [hends] at hread
      obtain rfl := Except.ok.inj hread
      rw [hs]
      rfl

/-! ## 2. A command that has been built -/

/-- A run that has built a command, with all that came before: its flags were read, its store was
opened, and the work on the journal ended with the command. -/
structure Building (w : World) (tokens : List Text) where
  settings : Settings
  cwd : Text
  opened : World
  store : Store
  command : Command
  flags : Settings.read (split tokens).own = .ok settings
  isChecked : settings.onlyCheckArguments = false
  directory : w.currentDirectory = .ok cwd
  opens : Store.openAt w (settings.databasePath w) settings.timeout = (opened, .ok store)
  built : (prepare opened store settings cwd (split tokens).command).result = .ok (.launch command)

namespace Building

/-- The work on the journal. -/
def work (b : Building w tokens) : Outcome Prepared :=
  prepare b.opened b.store b.settings b.cwd (split tokens).command

/-- The world in which the store has been closed. -/
def closed (b : Building w tokens) : World := b.store.close b.work.world

/-- What is left to do once there is a command. -/
theorem run_eq (b : Building w tokens) (refusal : Option Errno) :
    run w tokens refusal = (b.closed, (finish b.closed b.settings b.work.events refusal
      b.command).shown b.settings.shownVerbosity) := by
  simp only [run, b.flags, b.isChecked, perform_of_opened b.directory b.opens, conclude, b.built]
  rfl

/-- The dry run builds the same command. -/
def dry (b : Building w tokens) (htokens : ∀ a ∈ (assignments (split tokens).own).1, ¬a.TurnsDry) :
    Building w (dryToken :: tokens) where
  settings := b.settings.withDry true
  cwd := b.cwd
  opened := b.opened
  store := b.store
  command := b.command
  flags := by
    rw [split_dry, Parts.addOwn, read_dry htokens, b.flags]
    rfl
  isChecked := b.isChecked
  directory := b.directory
  opens := b.opens
  built := by
    rw [split_dry]
    exact b.built

end Building

/-- Nothing but the end of a run looks at the switch. -/
theorem perform_withDry (on : Bool) (refusal : Option Errno)
    (hnone : ∀ {cwd w₁ s command}, w.currentDirectory = .ok cwd →
      Store.openAt w (settings.databasePath w) settings.timeout = (w₁, .ok s) →
      (prepare w₁ s settings cwd tokens).result ≠ .ok (.launch command)) :
    perform w (settings.withDry on) tokens refusal = perform w settings tokens refusal := by
  rcases perform_cases w settings tokens refusal with ⟨e, hcwd, hperform⟩ |
    ⟨cwd, w₁, e, hcwd, hopen, hperform⟩ | ⟨cwd, w₁, s, hcwd, hopen, hperform⟩
  · rw [hperform]
    simp only [perform, hcwd]
  · have hopen' : Store.openAt w ((settings.withDry on).databasePath w)
        (settings.withDry on).timeout = (w₁, .error e) := hopen
    rw [hperform, perform_of_refused hcwd hopen']
  have hopen' : Store.openAt w ((settings.withDry on).databasePath w)
      (settings.withDry on).timeout = (w₁, .ok s) := hopen
  have hwork : prepare w₁ s (settings.withDry on) cwd tokens = prepare w₁ s settings cwd tokens :=
    rfl
  rw [hperform, perform_of_opened hcwd hopen', hwork, conclude, conclude]
  cases hprepared : (prepare w₁ s settings cwd tokens).result with
  | error e => rfl
  | ok prepared =>
    cases prepared with
    | exported => rfl
    | complaint text => rfl
    | launch command => exact absurd hprepared (hnone hcwd hopen)

/-- **A run that builds no command does the same as a dry one.** -/
theorem run_dry_of_isEmpty (htokens : ∀ a ∈ (assignments (split tokens).own).1, ¬a.TurnsDry)
    (hnone : IsEmpty (Building w tokens)) (refusal : Option Errno) :
    run w (dryToken :: tokens) refusal = run w tokens refusal := by
  unfold run
  rw [split_dry, Parts.addOwn]
  simp only [read_dry htokens]
  cases hread : Settings.read (split tokens).own with
  | error halt => cases halt <;> rfl
  | ok settings =>
  cases hcheck : settings.onlyCheckArguments with
  | true =>
    have hcheck' : (settings.withDry true).onlyCheckArguments = true := hcheck
    simp only [Except.map, hcheck, hcheck']
    rfl
  | false =>
    have hcheck' : (settings.withDry true).onlyCheckArguments = false := hcheck
    have hperform : perform w (settings.withDry true) (split tokens).command refusal =
        perform w settings (split tokens).command refusal := by
      refine perform_withDry true refusal fun {cwd w₁ s command} hcwd hopen hbuilt => ?_
      exact hnone.false ⟨settings, cwd, w₁, s, command, hread, hcheck, hcwd, hopen, hbuilt⟩
    simp only [Except.map, hcheck, hcheck', hperform]
    rfl

/-! ## 3. What a dry run says -/

/-- Printing comes before launching, and is all that a dry run does. -/
theorem finish_output (w : World) (settings : Settings) (events : List Event)
    (refusal : Option Errno) (command : Command) :
    (finish w settings events refusal command).output =
      if settings.verbose ∨ settings.dryRun then command.line ++ ['\n'] else [] := by
  unfold finish
  simp only
  split
  · rfl
  split
  · rfl
  split
  · rfl
  · rfl

/-- A directory that was entered from one that is still there is there as well. -/
theorem currentDirectory_of_enter {directory : Text} (hcwd : w.cwd.lost = 0)
    (henter : enter w directory = .ok w') : ∃ here, w'.currentDirectory = .ok here := by
  have hlost : w'.cwd.lost = 0 := by
    unfold enter at henter
    split at henter
    · rw [← Except.ok.inj henter]
      exact hcwd
    unfold World.changeDirectory at henter
    split at henter
    · exact absurd henter (by simp)
    split at henter
    · exact absurd henter (by simp)
    next spot hfind =>
    split at henter
    · rw [← Except.ok.inj henter]
      exact World.find_lost (.inr hcwd) hfind
    · exact absurd henter (by simp)
  exact ⟨_, by rw [World.currentDirectory, if_pos hlost]⟩

/-- The report of a dry run tells what a run that has built a command does: it prints a text with a
line break, and nothing else happens.  The text is that of the words of the command, and the same
one is printed by a run that is to print it.  What the run launches is those words, and it does so
if the directory of the command can be entered. -/
structure Foretells (b : Building w tokens) (dryReport report : Report) (text : Text) : Prop where
  exit : dryReport.exit = some 0
  launch : dryReport.launch = none
  complaint : dryReport.complaint = none
  escape : dryReport.escape = none
  output : dryReport.output = text ++ ['\n']
  words : Words.decode (text ++ ['\n']) = .ok b.command.argv
  printed : report.output = if b.settings.verbose then text ++ ['\n'] else []
  argv : ∀ {l}, report.launch = some l → l.argv = b.command.argv
  launched : ∀ {v}, enter b.closed b.command.workdir = .ok v →
    ∃ here, report.launch = some ⟨b.command.argv, some here⟩

theorem Building.foretells (b : Building w tokens) (hw : w.IsSound)
    (htokens : ∀ a ∈ (assignments (split tokens).own).1, ¬a.TurnsDry) (refusal : Option Errno) :
    Foretells b (run w (dryToken :: tokens) refusal).2 (run w tokens refusal).2 b.command.line := by
  have hdry := (b.dry htokens).run_eq refusal
  have hplain := b.run_eq refusal
  have hoff : b.settings.dryRun = false := not_dry_of_read htokens b.flags
  have hlaunch : (run w tokens refusal).2.launch =
      (replaceProcess b.closed b.command.argv b.command.workdir refusal).launch := by
    rw [hplain, Report.shown]
    simp only [finish_launch_eq, hoff]
    rfl
  have hcwd : b.closed.cwd.lost = 0 := by
    have hsame := (run_footprint hw tokens refusal).cwd
    rw [hplain] at hsame
    rw [show b.closed.cwd = w.cwd from hsame]
    exact (cwd_of_currentDirectory b.directory).1
  constructor
  case exit | launch | complaint | escape =>
    rw [hdry]
    rfl
  case output =>
    rw [hdry, Report.shown]
    simp only [finish_output]
    exact if_pos (.inr rfl)
  case words => exact Words.decode_append_newline (Words.decode_encode _)
  case printed =>
    rw [hplain, Report.shown]
    simp [finish_output, hoff, Command.line]
  case argv =>
    intro l hl
    rw [hlaunch] at hl
    obtain ⟨-, -, -, -, rfl⟩ := (replaceProcess_launch b.closed b.command refusal).mp hl
    rfl
  case launched =>
    intro v henter
    obtain ⟨here, hhere⟩ := currentDirectory_of_enter hcwd henter
    rw [hlaunch]
    exact ⟨here, (replaceProcess_launch b.closed b.command refusal).mpr
      ⟨v, here, henter, hhere, rfl⟩⟩

/-- A compile with words that need quotes. -/
def quotedTokens : List Text := ["--db=/x.db", "--", "cc", "-D", "A='b c'", "main.c"]

/-- **A dry run tells the truth.**  Put in front of a command line that does not turn the switch
itself, it leaves the same world as the run would.  Where the run builds no command, which an
export never does, the dry run reports the same.  Where it builds one, the dry run launches nothing
and foretells what the run does. -/
theorem dry_run_foretells (hw : w.IsSound)
    (htokens : ∀ a ∈ (assignments (split tokens).own).1, ¬a.TurnsDry) (refusal : Option Errno) :
    (run w (dryToken :: tokens) refusal).1 = (run w tokens refusal).1 ∧
      (IsEmpty (Building w tokens) →
        (run w (dryToken :: tokens) refusal).2 = (run w tokens refusal).2) ∧
      (∀ {settings}, Settings.read (split tokens).own = .ok settings → settings.exportPath ≠ [] →
        (run w (dryToken :: tokens) refusal).2 = (run w tokens refusal).2) ∧
      ∀ b : Building w tokens, ∃ text,
        Foretells b (run w (dryToken :: tokens) refusal).2 (run w tokens refusal).2 text := by
  have hsame (hnone : IsEmpty (Building w tokens)) := run_dry_of_isEmpty htokens hnone refusal
  refine ⟨?_, ?_, ?_, ?_⟩
  · rcases isEmpty_or_nonempty (Building w tokens) with hnone | ⟨⟨b⟩⟩
    · rw [hsame hnone]
    · rw [b.run_eq, (b.dry htokens).run_eq]
      rfl
  · intro hnone
    rw [hsame hnone]
  · intro settings hread hexport
    have hnone : IsEmpty (Building w tokens) := by
      refine ⟨fun b => hexport ?_⟩
      obtain rfl := Except.ok.inj (hread.symm.trans b.flags)
      exact exportPath_of_built b.built
    rw [hsame hnone]
  · intro b
    exact ⟨b.command.line, b.foretells hw htokens refusal⟩

/-- A compile is recorded by a dry run, and printed as the words that it is launched with. -/
theorem dry_run_foretells_journalWorld :
    (journalWorld.IsSound ∧ ∀ a ∈ (assignments (split quotedTokens).own).1, ¬a.TurnsDry) ∧
    ∃ b : Building journalWorld quotedTokens, b.command.argv = ["cc", "-D", "A='b c'", "main.c"] ∧
      ∃ text, Foretells b (run journalWorld (dryToken :: quotedTokens) none).2
        (run journalWorld quotedTokens none).2 text := by
  have hsound : journalWorld.IsSound := ⟨Disk.isTree_of_entries (by decide) (by decide), rfl⟩
  have hturns : ∀ a ∈ (assignments (split quotedTokens).own).1, ¬a.TurnsDry := by
    have hmade : (assignments (split quotedTokens).own).1 = rootDatabaseMade := by decide
    rw [hmade]
    rintro a ha ⟨hkind, -⟩
    obtain rfl := List.mem_singleton.mp ha
    exact absurd hkind (by decide)
  let b : Building journalWorld quotedTokens := {
    settings := { database := "/x.db" }
    cwd := "/"
    opened := (Store.openAt journalWorld "/x.db" firstStore.timeout).1
    store := firstStore
    command := ⟨"cc", ["-D", "A='b c'", "main.c"], "/"⟩
    flags := by decide
    isChecked := rfl
    directory := by decide
    opens := by decide
    built := by decide }
  obtain ⟨-, -, -, hforetells⟩ := dry_run_foretells hsound hturns none
  exact ⟨⟨hsound, hturns⟩, b, rfl, hforetells b⟩

end CommandLine

end CompileJournal
