import CompileJournal.Number.Binary64
import CompileJournal.Text.Basic

/-!
# Numerals

How a number is read from a token.  Blanks around it are ignored, single underscores may
stand between digits, and the decimal digits of every script count as digits, provided the
token holds a character outside ASCII at all.

* `Numeral.real?`: a decimal number with an optional fraction and exponent, `inf`, `infinity`
  or `nan`;
* `Numeral.integer?`: a whole number in a given base, which may repeat the mark of its base.
-/

namespace CompileJournal.Numeral

/-- The codes of the digit zero of each script outside ASCII; the other nine digits follow. -/
def scriptZeros : List Nat := [
    0x660, 0x6F0, 0x7C0, 0x966, 0x9E6, 0xA66, 0xAE6, 0xB66, 0xBE6, 0xC66, 0xCE6, 0xD66, 0xDE6,
    0xE50, 0xED0, 0xF20, 0x1040, 0x1090, 0x17E0, 0x1810, 0x1946, 0x19D0, 0x1A80, 0x1A90, 0x1B50,
    0x1BB0, 0x1C40, 0x1C50, 0xA620, 0xA8D0, 0xA900, 0xA9D0, 0xA9F0, 0xAA50, 0xABF0, 0xFF10,
    0x104A0, 0x10D30, 0x11066, 0x110F0, 0x11136, 0x111D0, 0x112F0, 0x11450, 0x114D0, 0x11650,
    0x116C0, 0x11730, 0x118E0, 0x11950, 0x11C50, 0x11D50, 0x11DA0, 0x16A60, 0x16AC0, 0x16B50,
    0x1D7CE, 0x1D7D8, 0x1D7E2, 0x1D7EC, 0x1D7F6, 0x1E140, 0x1E2F0, 0x1E950, 0x1FBF0]

/-- The blanks outside ASCII. -/
def isWideBlank (c : Char) : Bool :=
  let n := c.toNat
  n = 0x85 || n = 0xA0 || n = 0x1680 || (0x2000 ≤ n && n ≤ 0x200A) || n = 0x2028 || n = 0x2029
    || n = 0x202F || n = 0x205F || n = 0x3000

/-- The blanks of ASCII. -/
def isBlank (c : Char) : Bool := c = ' ' || (0x09 ≤ c.toNat && c.toNat ≤ 0x0D)

/-- The ASCII character that stands for `c` in a numeral; characters without a meaning there
become a question mark. -/
def plainChar (c : Char) : Char :=
  if c.toNat < 0x7F then c
  else if isWideBlank c then ' '
  else match scriptZeros.find? fun z => z ≤ c.toNat && c.toNat < z + 10 with
    | some z => Nat.digitChar (c.toNat - z)
    | none => '?'

/-- The ASCII form of a numeral.  A token of ASCII characters is its own form. -/
def plain (t : Text) : Text := if t.all (·.toNat < 0x80) then t else t.map plainChar

/-- A text without the blanks at its two ends. -/
def trimmed (t : Text) : Text :=
  ((t.dropWhile isBlank).reverse.dropWhile isBlank).reverse

/-- A sign, if there is one, and the rest: `true` is the minus sign. -/
def sign : Text → Bool × Text
  | '-' :: rest => (true, rest)
  | '+' :: rest => (false, rest)
  | t => (false, t)

/-- The value of a digit, the letters counting on from ten. -/
def digitValue? (base : Nat) (c : Char) : Option Nat :=
  let n := c.toNat
  let value :=
    if 0x30 ≤ n ∧ n ≤ 0x39 then n - 0x30
    else if 0x61 ≤ n ∧ n ≤ 0x7A then n - 0x61 + 10
    else if 0x41 ≤ n ∧ n ≤ 0x5A then n - 0x41 + 10
    else base
  if value < base then some value else none

/-! ## Whole numbers -/

/-- The value of digits that follow a digit: `value` is what was read so far. -/
def moreDigits? (base : Nat) (value : Nat) : Text → Option Nat
  | [] => some value
  | '_' :: c :: rest => (digitValue? base c).bind fun d => moreDigits? base (value * base + d) rest
  | c :: rest => (digitValue? base c).bind fun d => moreDigits? base (value * base + d) rest

/-- The value of a non-empty run of digits, single underscores between them allowed. -/
def digits? (base : Nat) : Text → Option Nat
  | [] => none
  | c :: rest => (digitValue? base c).bind fun d => moreDigits? base d rest

/-- A run of digits that may start with the mark of its base, such as `0x`, and after the mark
with one underscore. -/
def markedDigits? (base : Nat) (t : Text) : Option Nat :=
  let isMark (c : Char) : Bool :=
    (base = 16 && (c = 'x' || c = 'X')) || (base = 8 && (c = 'o' || c = 'O'))
  match t with
  | '0' :: c :: rest =>
    if isMark c then
      match rest with
      | '_' :: rest => digits? base rest
      | rest => digits? base rest
    else digits? base t
  | t => digits? base t

/-- The whole number a text stands for in the given base. -/
def integer? (base : Nat) (t : Text) : Option Int :=
  let s := sign (trimmed (plain t))
  (markedDigits? base s.2).map fun n => if s.1 then -(n : Int) else n

/-- The most digits a whole number in base ten may have. -/
def maxDigits : Nat := 4300

/-- How many digits a text in base ten starts with, after blanks and a sign.  None are counted
where their underscores are not in order. -/
def digitCount (t : Text) : Nat :=
  let run := (sign (trimmed (plain t))).2.takeWhile fun c => c.isDigit || c = '_'
  if (digits? 10 run).isSome then run.countP Char.isDigit else 0

/-! ## Decimal numbers -/

/-- A text without its underscores, if each of them stands between two digits. -/
def withoutUnderscores? (previous : Char) : Text → Option Text
  | [] => if previous = '_' then none else some []
  | '_' :: rest => if previous.isDigit then withoutUnderscores? '_' rest else none
  | c :: rest =>
    if previous = '_' ∧ ¬ c.isDigit then none
    else (withoutUnderscores? c rest).map (c :: ·)

/-- The value of the digits `t`, counted on from `value`. -/
def decimalValue (value : Nat) (t : Text) : Nat :=
  t.foldl (fun n c => n * 10 + (c.toNat - 0x30)) value

/-- The power of ten after the digits: nothing, or `e` with a whole number. -/
def power? : Text → Option Int
  | [] => some 0
  | c :: rest =>
    if c = 'e' ∨ c = 'E' then
      let s := sign rest
      if s.2 ≠ [] ∧ s.2.all Char.isDigit then
        let n : Int := decimalValue 0 s.2
        some (if s.1 then -n else n)
      else none
    else none

/-- An unsigned decimal number: digits around an optional point, at least one of them, and an
optional power of ten. -/
def decimal? (negative : Bool) (t : Text) : Option Binary64 :=
  let whole := t.takeWhile Char.isDigit
  let rest := t.dropWhile Char.isDigit
  let (fraction, rest) := match rest with
    | '.' :: rest => (rest.takeWhile Char.isDigit, rest.dropWhile Char.isDigit)
    | rest => ([], rest)
  if whole = [] ∧ fraction = [] then none
  else (power? rest).map fun p =>
    Binary64.ofDecimal negative (decimalValue 0 (whole ++ fraction)) (p - fraction.length)

/-- The binary number nearest to the number a text stands for. -/
def real? (t : Text) : Option Binary64 :=
  let t := trimmed (plain t)
  (withoutUnderscores? ' ' t).bind fun t =>
    let s := sign t
    let word := Text.asciiLower s.2
    if word = "inf".toList ∨ word = "infinity".toList then some (.infinite s.1)
    else if word = "nan".toList then some .notANumber
    else decimal? s.1 s.2

end CompileJournal.Numeral
