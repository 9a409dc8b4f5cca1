import CompileJournal.Text.Basic

/-!
# The flags of the command line

Every flag has a name and a kind: a switch is on or off, a setting takes a value.  A few flags
have a second spelling.  Flags that change nothing here are known all the same, so that they are
not taken for the name of a compiler.
-/

namespace CompileJournal

/-- A flag that is on or off. -/
inductive Switch where
  | replay
  | dryRun
  | verbose
  | onlyCheckArguments
  | onlyCheckFlags
  | help
  /-- A switch without an effect on a run. -/
  | idle
  deriving DecidableEq, Repr

/-- A flag that takes a value. -/
inductive Setting where
  | database
  | timeout
  | driver
  | wrapper
  | alternative
  | exportPath
  | valueFlag
  | verbosity
  | errorThreshold
  /-- A setting without an effect on a run. -/
  | idle
  deriving DecidableEq, Repr

/-- What a flag is. -/
inductive FlagKind where
  | switch (s : Switch)
  | setting (s : Setting)
  deriving DecidableEq, Repr

/-- Whether a flag is a switch. -/
def FlagKind.isSwitch : FlagKind → Bool
  | switch _ => true
  | setting _ => false

/-- A flag and the name under which it is reported. -/
structure Flag where
  name : Text
  kind : FlagKind
  deriving DecidableEq, Repr

namespace Flag

/-- The switches, by spelling and name. -/
def switches : List (String × String × Switch) := [
    ("replay", "replay", .replay), ("dry_run", "dry_run", .dryRun),
    ("verbose", "verbose", .verbose), ("only_check_args", "only_check_args", .onlyCheckArguments),
    ("only_check_flags", "only_check_flags", .onlyCheckFlags),
    ("help", "help", .help), ("?", "help", .help), ("helpfull", "helpfull", .help),
    ("helpshort", "helpshort", .help), ("helpxml", "helpxml", .help),
    ("alsologtostderr", "alsologtostderr", .idle), ("logtostderr", "logtostderr", .idle),
    ("showprefixforinfo", "showprefixforinfo", .idle), ("pdb", "pdb", .idle),
    ("pdb_post_mortem", "pdb_post_mortem", .idle), ("run_with_pdb", "run_with_pdb", .idle),
    ("run_with_profiling", "run_with_profiling", .idle),
    ("use_cprofile_for_profiling", "use_cprofile_for_profiling", .idle)]

/-- The settings, by spelling and name. -/
def settings : List (String × String × Setting) := [
    ("db", "db", .database), ("db_timeout", "db_timeout", .timeout),
    ("driver", "driver", .driver), ("prefix", "prefix", .wrapper),
    ("alternative", "alternative", .alternative), ("value_flag", "value_flag", .valueFlag),
    ("export_compile_commands", "export_compile_commands", .exportPath),
    ("verbosity", "verbosity", .verbosity), ("v", "verbosity", .verbosity),
    ("stderrthreshold", "stderrthreshold", .errorThreshold), ("log_dir", "log_dir", .idle),
    ("logger_levels", "logger_levels", .idle), ("profile_file", "profile_file", .idle)]

/-- All flags by spelling. -/
def table : List (Text × Flag) :=
  switches.map (fun e => (e.1.toList, ⟨e.2.1.toList, .switch e.2.2⟩)) ++
    settings.map (fun e => (e.1.toList, ⟨e.2.1.toList, .setting e.2.2⟩))

/-- The flag of a spelling. -/
def find? (spelling : Text) : Option Flag := table.lookup spelling

/-- The switch that a spelling turns off, such as that of `verbose` for `noverbose`. -/
def findNegated? (spelling : Text) : Option Flag :=
  if Text.beginsWith spelling ['n', 'o'] then (find? (spelling.drop 2)).filter (·.kind.isSwitch)
  else none

end Flag

end CompileJournal
