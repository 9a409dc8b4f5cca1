import CompileJournal.CommandLine.Flag
import CompileJournal.Number.Numeral
import CompileJournal.Number.Shortest
import CompileJournal.Text.Quoted

/-!
# The settings of a run

The tokens of the flags are read from left to right into assignments of a value to a flag, and
the assignments are carried out in that order until one of them ends the run.  Later values
replace earlier ones; only the additional value flags add up.

* `CommandLine.assignments`: the assignments that a list of tokens spells, and how it ends;
* `Settings.assign`: one assignment;
* `Settings.read`: the settings of a list of tokens.
-/

namespace CompileJournal

/-- Why the flags of a command line are refused. -/
inductive FlagError where
  /-- A setting at the end of the command line without its value. -/
  | missingValue (token : Text)
  /-- A value for a switch that is turned off. -/
  | takesNoArgument (token : Text)
  /-- A token that is no flag. -/
  | unknown (token : Text)
  /-- A value of a switch that is neither true nor false. -/
  | notBoolean (name value : Text)
  /-- A value that is no number. -/
  | notReal (name value : Text)
  /-- A value that is no whole number. -/
  | notInteger (name value : Text) (base : Nat)
  /-- A whole number with more digits than are read. -/
  | tooManyDigits (name value : Text) (count : Nat)
  /-- A value that is no level of importance. -/
  | notALevel (value : Text)
  deriving DecidableEq, Repr

/-- The start of the report on a refused value. -/
def FlagError.illegalValue (name value : Text) : Text :=
  "flag --".toList ++ name ++ "=".toList ++ value ++ ": ".toList

/-- The text of a flag error. -/
def FlagError.message : FlagError → Text
  | missingValue token => "Missing value for flag ".toList ++ token
  | takesNoArgument token => token ++ " does not take an argument".toList
  | unknown token => "Unknown command line flag ".toList ++ Text.quoted token
  | notBoolean name value =>
    illegalValue name value ++ "('Non-boolean argument to boolean flag', ".toList ++
      Text.quoted value ++ ")".toList
  | notReal name value =>
    illegalValue name value ++ "could not convert string to float: ".toList ++ Text.quoted value
  | notInteger name value base =>
    illegalValue name value ++ "invalid literal for int() with base ".toList ++
      Nat.toDigits 10 base ++ ": ".toList ++ (Text.quoted value).take 200
  | tooManyDigits name value count =>
    illegalValue name value ++ "Exceeds the limit (".toList ++
      Nat.toDigits 10 Numeral.maxDigits ++
      " digits) for integer string conversion: value has ".toList ++ Nat.toDigits 10 count ++
      " digits; use sys.set_int_max_str_digits() to increase the limit".toList
  | notALevel value =>
    "--stderrthreshold must be one of (case-insensitive) ".toList ++
      "'debug', 'info', 'warning', 'error', 'fatal', ".toList ++
      "or '0', '1', '2', '3', not '".toList ++ value ++ "'".toList

namespace CommandLine

/-! ## 1. Assignments -/

/-- A value for a flag. -/
structure Assignment where
  flag : Flag
  value : Text
  deriving DecidableEq, Repr

/-- How a list of flag tokens ends. -/
inductive Ending where
  /-- All tokens were read, but for those after the flags. -/
  | complete (left : List Text)
  /-- A token could not be read. -/
  | refused (e : FlagError)
  deriving DecidableEq, Repr

/-- The spelling of a flag and the value joined to it, for a token that starts with one or two
dashes. -/
def spelling (token : Text) : Text × Option Text :=
  Text.cut '=' (if Text.beginsWith token ['-', '-'] then token.drop 2 else token.drop 1)

/-- What one token of the flags asks for. -/
inductive Request where
  /-- The token is no flag; the flags end before it. -/
  | stop
  /-- The token is an assignment of its own. -/
  | assign (a : Assignment)
  /-- The token is a setting whose value is the next token. -/
  | await (flag : Flag)
  /-- The token cannot be read. -/
  | refuse (e : FlagError)
  deriving DecidableEq, Repr

/-- What a token that spells a known flag asks for. -/
def requestOf (flag : Flag) : Option Text → Request
  | some value => .assign ⟨flag, value⟩
  | none => if flag.kind.isSwitch then .assign ⟨flag, "true"⟩ else .await flag

/-- What a token that turns a switch off asks for. -/
def requestOff (token : Text) (flag : Flag) : Option Text → Request
  | some _ => .refuse (.takesNoArgument token)
  | none => .assign ⟨flag, "false"⟩

/-- What a token asks for. -/
def request (token : Text) : Request :=
  if !Text.beginsWith token ['-'] ∨ token = ['-', '-'] then .stop
  else
    let s := spelling token
    match Flag.find? s.1 with
    | some flag => requestOf flag s.2
    | none =>
      match Flag.findNegated? s.1 with
      | some flag => requestOff token flag s.2
      | none => .refuse (.unknown token)

/-- The assignments that tokens spell from left to right, and how the tokens end. -/
def assignments : List Text → List Assignment × Ending
  | [] => ([], .complete [])
  | token :: rest =>
    match request token with
    | .stop => ([], .complete (token :: rest))
    | .refuse e => ([], .refused e)
    | .assign a =>
      let later := assignments rest
      (a :: later.1, later.2)
    | .await flag =>
      match rest with
      | [] => ([], .refused (.missingValue token))
      | value :: rest =>
        let later := assignments rest
        (⟨flag, value⟩ :: later.1, later.2)

end CommandLine

/-! ## 2. Settings -/

/-- The settings of a run.  An empty text stands for a setting that was not made. -/
structure Settings where
  database : Text := []
  timeout : Binary64 := .finite false 5629499534213120 (-50)
  driver : Text := []
  wrapper : Text := []
  alternative : Text := []
  exportPath : Text := []
  valueFlags : List Text := []
  verbosity : Option Int := none
  replay : Bool := false
  dryRun : Bool := false
  verbose : Bool := false
  onlyCheckArguments : Bool := false
  deriving DecidableEq, Repr

/-- Why a run ends while its flags are read. -/
inductive Halt where
  /-- The flags are refused. -/
  | refused (e : FlagError)
  /-- The flags were only to be checked. -/
  | checked
  /-- The flags were only to be explained. -/
  | explained
  deriving DecidableEq, Repr

namespace Settings

/-- The truth value a text stands for. -/
def boolean? (t : Text) : Option Bool :=
  let t := Text.asciiLower t
  if t ∈ ["true".toList, ['t'], ['1']] then some true
  else if t ∈ ["false".toList, ['f'], ['0']] then some false
  else none

/-- The names of the levels of importance. -/
def levelNames : List Text :=
  ["debug", "info", "warning", "warn", "error", "fatal", "0", "1", "2", "3"].map String.toList

/-- The base in which a whole number is read, which `0x` and `0o` at its start choose. -/
def baseOf (t : Text) : Nat :=
  match t with
  | '0' :: 'x' :: _ :: _ => 16
  | '0' :: 'o' :: _ :: _ => 8
  | _ => 10

/-- Turns a switch on or off. -/
def turn (s : Settings) (switch : Switch) (on : Bool) : Except Halt Settings :=
  match switch with
  | .replay => .ok { s with replay := on }
  | .dryRun => .ok { s with dryRun := on }
  | .verbose => .ok { s with verbose := on }
  | .onlyCheckArguments => .ok { s with onlyCheckArguments := on }
  | .onlyCheckFlags => if on then .error .checked else .ok s
  | .help => if on then .error .explained else .ok s
  | .idle => .ok s

/-- Gives a setting a value. -/
def assignSetting (s : Settings) (name : Text) (setting : Setting) (value : Text) :
    Except Halt Settings :=
  match setting with
  | .database => .ok { s with database := value }
  | .driver => .ok { s with driver := value }
  | .wrapper => .ok { s with wrapper := value }
  | .alternative => .ok { s with alternative := value }
  | .exportPath => .ok { s with exportPath := value }
  | .valueFlag => .ok { s with valueFlags := s.valueFlags ++ [value] }
  | .timeout =>
    match Numeral.real? value with
    | none => .error (.refused (.notReal name value))
    | some x => .ok { s with timeout := x }
  | .verbosity =>
    if baseOf value = 10 ∧ Numeral.maxDigits < Numeral.digitCount value then
      .error (.refused (.tooManyDigits name value (Numeral.digitCount value)))
    else match Numeral.integer? (baseOf value) value with
      | none => .error (.refused (.notInteger name value (baseOf value)))
      | some n => .ok { s with verbosity := some n }
  | .errorThreshold =>
    if Text.asciiLower value ∈ levelNames then .ok s
    else .error (.refused (.notALevel value))
  | .idle => .ok s

/-- Carries out one assignment. -/
def assign (s : Settings) (a : CommandLine.Assignment) : Except Halt Settings :=
  match a.flag.kind with
  | .switch switch =>
    match boolean? a.value with
    | none => .error (.refused (.notBoolean a.flag.name a.value))
    | some on => s.turn switch on
  | .setting setting => s.assignSetting a.flag.name setting a.value

/-- The settings that a list of flag tokens makes. -/
def read (tokens : List Text) : Except Halt Settings :=
  let r := CommandLine.assignments tokens
  match r.1.foldlM assign {} with
  | .error h => .error h
  | .ok s =>
    match r.2 with
    | .complete _ => .ok s
    | .refused e => .error (.refused e)

/-- How much a run reports: what was set, except that `verbose` asks for the usual amount. -/
def shownVerbosity (s : Settings) : Int := if s.verbose then 0 else s.verbosity.getD 0

end Settings

end CompileJournal
