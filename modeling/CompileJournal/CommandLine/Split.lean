import CompileJournal.CommandLine.Flag

/-!
# Where the compile command starts

The flags of the command line come first.  They end before the first token that is none of
them, or at a `--`, which is dropped; from there on all tokens belong to the compile command.
The value of a setting may be the next token, whatever that token looks like.
-/

namespace CompileJournal.CommandLine

/-- The token that ends the flags. -/
def terminator : Text := ['-', '-']

/-- How many tokens a flag takes up. -/
inductive Extent where
  /-- The token alone. -/
  | alone
  /-- The token and the one after it. -/
  | withNext
  deriving DecidableEq, Repr

/-- How many tokens the flag that a token spells takes up, if it spells one. -/
def extent? (token : Text) : Option Extent :=
  if !Text.beginsWith token terminator then none
  else
    let spelled := Text.cut '=' (token.drop 2)
    match Flag.find? spelled.1 with
    | some flag =>
      if spelled.2 = none ∧ !flag.kind.isSwitch then some .withNext else some .alone
    | none => (Flag.findNegated? spelled.1).map fun _ => .alone

/-- A command line in two parts: the tokens of its own flags, and the compile command. -/
structure Parts where
  own : List Text
  command : List Text
  deriving DecidableEq, Repr

/-- With one more token in front. -/
def Parts.addOwn (token : Text) (p : Parts) : Parts := { p with own := token :: p.own }

/-- Splits a command line. -/
def split : List Text → Parts
  | [] => ⟨[], []⟩
  | token :: rest =>
    if token = terminator then ⟨[], rest⟩
    else match extent? token with
      | none => ⟨[], token :: rest⟩
      | some .alone => (split rest).addOwn token
      | some .withNext =>
        match rest with
        | [] => ⟨[token], []⟩
        | value :: rest => ((split rest).addOwn value).addOwn token

end CompileJournal.CommandLine
