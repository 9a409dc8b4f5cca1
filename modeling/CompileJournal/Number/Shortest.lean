import CompileJournal.Number.Binary64
import CompileJournal.Text.Basic

/-!
# The shortest decimal form

A binary number is written with the fewest decimal digits that read back as the same number,
and among those with the digits nearest to it.  Between 0.0001 and 10^16 the form is
positional, with at least one digit after the point; outside it has an exponent.
-/

namespace CompileJournal.Binary64

/-- The power of ten of the leading digit of the positive fraction `num / den`. -/
def leadingPower (num den : Nat) : Int :=
  let guess : Int := (Nat.toDigits 10 num).length - (Nat.toDigits 10 den).length
  let s := scaled 10 num den guess
  if s.1 < s.2 then guess - 1 else guess

/-- Of the two neighbours of `num / den` on the grid of `count` digits, the one that reads
back as the number `x`, the nearer one if both do. -/
def onGrid? (x : Binary64) (num den : Nat) (lead : Int) (count : Nat) : Option (Nat × Int) :=
  let power := lead - (count - 1)
  let s := scaled 10 num den power
  let low := s.1 / s.2
  let near := roundHalfEven s.1 s.2
  let far := if near = low then low + 1 else low
  if ofDecimal false near power = x then some (near, power)
  else if ofDecimal false far power = x then some (far, power)
  else none

/-- Digits and power of ten of the shortest decimal form of a positive number. -/
def shortest (mantissa : Nat) (exponent : Int) : Nat × Int :=
  let s := scaled 2 mantissa 1 (-exponent)
  let lead := leadingPower s.1 s.2
  let x := Binary64.finite false mantissa exponent
  ((List.range 17).findSome? fun n => onGrid? x s.1 s.2 lead (n + 1)).getD (mantissa, exponent)

/-- The digits of a number without the zeros at its end. -/
def significantDigits (n : Nat) : Text :=
  ((Nat.toDigits 10 n).reverse.dropWhile (· = '0')).reverse

/-- An exponent with its sign and at least two digits. -/
def exponentText (power : Int) : Text :=
  let digits := Nat.toDigits 10 power.natAbs
  (if power < 0 then '-' else '+') :: (if digits.length < 2 then '0' :: digits else digits)

/-- The text of the positive number `digits · 10 ^ power`. -/
def decimalText (digits : Nat) (power : Int) : Text :=
  let lead : Int := (Nat.toDigits 10 digits).length - 1 + power
  let shown := significantDigits digits
  if lead < -4 ∨ 16 ≤ lead then
    shown.take 1 ++ (if shown.length = 1 then [] else '.' :: shown.drop 1)
      ++ 'e' :: exponentText lead
  else if lead < 0 then
    '0' :: '.' :: List.replicate ((-lead).toNat - 1) '0' ++ shown
  else
    let whole := lead.toNat + 1
    if shown.length ≤ whole then
      shown ++ List.replicate (whole - shown.length) '0' ++ ['.', '0']
    else shown.take whole ++ '.' :: shown.drop whole

/-- The decimal form of a number. -/
def text : Binary64 → Text
  | .notANumber => "nan"
  | .infinite negative => if negative then "-inf" else "inf"
  | .finite negative mantissa exponent =>
    let sign : Text := if negative then ['-'] else []
    if mantissa = 0 then sign ++ "0.0".toList
    else
      let s := shortest mantissa exponent
      sign ++ decimalText s.1 s.2

end CompileJournal.Binary64
