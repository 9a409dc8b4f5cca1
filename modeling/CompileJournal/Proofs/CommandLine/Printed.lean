import CompileJournal.Proofs.CommandLine.Bookkeeping
import CompileJournal.Proofs.CommandLine.DryRun
import CompileJournal.Proofs.Words.Quoting

/-!
# What can be pasted into a shell

Two kinds of lines leave a run: the command that it prints, and the flags in the rows that it puts.
Both are written from words, whatever is in these, and nothing else is ever printed by a run whose
flags were read.  So each of them can be given to a shell without anything but words coming of it.

* `conclude_output`, `run_output`: all that a run prints;
* `cell_of_run`: the flags of a row after a run;
* `run_inert`: both of them.
-/

namespace CompileJournal.CommandLine

variable {w : World} {settings : Settings} {tokens : List Text}

theorem failed_output (events : List Event) (e : Failure) : (failed events e).output = [] := by
  unfold failed
  split <;> rfl

/-- What is printed at the end of a run is the line of the command that it ended with. -/
theorem conclude_output (settings : Settings) (refusal : Option Errno) (o : Outcome Prepared) :
    (conclude settings refusal o).output = [] ∨
      ∃ c, o.result = .ok (.launch c) ∧
        (conclude settings refusal o).output = c.line ++ ['\n'] := by
  unfold conclude
  cases o.result with
  | error e => exact .inl (failed_output o.events e)
  | ok prepared =>
    cases prepared with
    | exported => exact .inl rfl
    | complaint text => exact .inl rfl
    | launch c =>
      simp only [finish_output]
      split
      · exact .inr ⟨c, rfl, rfl⟩
      · exact .inl rfl

/-- **All that a run prints** once its flags were read: nothing, or one line, that of a command. -/
theorem run_output (w : World) (hread : Settings.read (split tokens).own = .ok settings)
    (refusal : Option Errno) :
    (run w tokens refusal).2.output = [] ∨
      ∃ c : Command, (run w tokens refusal).2.output = c.line ++ ['\n'] := by
  simp only [run, hread]
  split
  · exact .inl rfl
  · rcases perform_cases w settings (split tokens).command refusal with
      ⟨e, -, hperform⟩ | ⟨_, _, e, -, -, hperform⟩ | ⟨cwd, w₁, s, -, -, hperform⟩
    · rw [hperform]
      exact .inl rfl
    · rw [hperform]
      exact .inl (failed_output [] e)
    · rw [hperform]
      rcases conclude_output settings refusal _ with hnone | ⟨c, -, hline⟩
      · exact .inl hnone
      · exact .inr ⟨c, hline⟩

/-- The flags of a row that is there after a run were there before, or they are written from
words. -/
theorem cell_of_run (hw : w.IsSound) (tokens : List Text) (refusal : Option Errno) {p : Place}
    {rows : Table} {row : Row} (hrows : (run w tokens refusal).1.tableAt p = some rows)
    (hrow : row ∈ rows) :
    row ∈ (w.tableAt p).getD [] ∨ ∃ flags, row.line = Words.encode flags := by
  rcases (run_footprint hw tokens refusal).rows hrows hrow with hbefore | ⟨r, v, hwrote⟩
  · exact .inl hbefore
  · refine .inr ⟨r.parts.flags, ?_⟩
    rw [hwrote.row]
    rfl

/-- **Nothing is left bare in what a run prints or keeps.**  No written line leaves anything bare,
and so neither does the line of any command nor the row of any record.  A run whose flags were read
prints nothing or the line of a command and a line break, and a row that is there after a run was
there before, or its flags leave nothing bare. -/
theorem run_inert :
    (∀ tokens, Words.IsInert tokens (Words.encode tokens)) ∧
    (∀ c : Command, Words.IsInert c.argv c.line) ∧
    (∀ r : Record, Words.IsInert r.flags (Row.ofRecord r).line) ∧
    (∀ (w : World) {tokens settings}, Settings.read (split tokens).own = .ok settings →
      ∀ refusal, (run w tokens refusal).2.output = [] ∨
        ∃ c : Command, (run w tokens refusal).2.output = c.line ++ ['\n'] ∧
          Words.IsInert c.argv c.line) ∧
    (∀ {w : World}, w.IsSound → ∀ tokens refusal {p rows row},
      (run w tokens refusal).1.tableAt p = some rows → row ∈ rows →
        row ∈ (w.tableAt p).getD [] ∨ ∃ flags, Words.IsInert flags row.line) := by
  refine ⟨Words.isInert_encode, fun c => Words.isInert_encode c.argv,
    fun r => Words.isInert_encode r.flags, ?_, ?_⟩
  · intro w tokens settings hread refusal
    rcases run_output w hread refusal with hnone | ⟨c, hline⟩
    · exact .inl hnone
    · exact .inr ⟨c, hline, Words.isInert_encode c.argv⟩
  · intro w hw tokens refusal p rows row hrows hrow
    rcases cell_of_run hw tokens refusal hrows hrow with hbefore | ⟨flags, hline⟩
    · exact .inl hbefore
    · refine .inr ⟨flags, ?_⟩
      rw [hline]
      exact Words.isInert_encode flags

/-- A compile with a single quote in one of its words is printed, and kept, with nothing bare. -/
theorem run_inert_journalWorld :
    (∃ c : Command, (run journalWorld (dryToken :: quotedTokens) none).2.output =
        c.line ++ ['\n'] ∧ Words.IsInert c.argv c.line) ∧
    ∃ row flags, (run journalWorld (dryToken :: quotedTokens) none).1.tableAt ["x.db"] =
        some [row, ⟨"/old.c", "cc", "-c", "/"⟩] ∧ Words.IsInert flags row.line := by
  obtain ⟨-, -, -, hprinted, hkept⟩ := run_inert
  have hsound : journalWorld.IsSound := ⟨Disk.isTree_of_entries (by decide) (by decide), rfl⟩
  have hread : Settings.read (split (dryToken :: quotedTokens)).own =
      .ok { database := "/x.db", dryRun := true } := by
    decide
  have hrows : (run journalWorld (dryToken :: quotedTokens) none).1.tableAt ["x.db"] =
      some [⟨"/main.c", "cc", "-D 'A='\"'\"'b c'\"'\"''", "/"⟩, ⟨"/old.c", "cc", "-c", "/"⟩] := by
    decide +kernel
  constructor
  · rcases hprinted journalWorld hread none with hnone | hline
    · exact absurd hnone (by decide +kernel)
    · exact hline
  · rcases hkept hsound (dryToken :: quotedTokens) none hrows List.mem_cons_self with
      hbefore | ⟨flags, hinert⟩
    · exact absurd hbefore (by decide +kernel)
    · exact ⟨_, flags, hrows, hinert⟩

end CompileJournal.CommandLine
