/-
# Binary numbers of 64 bits

A waiting time is kept as a binary number: a sign, a mantissa of at most 53 bits and a power
of two between -1074 and 971.  `Binary64.ofDecimal` gives the number nearest to a decimal one,
the even neighbour where two are equally near.
-/

namespace CompileJournal

/-- A number `± mantissa · 2 ^ exponent`, an infinity or no number. -/
inductive Binary64 where
  | finite (negative : Bool) (mantissa : Nat) (exponent : Int)
  | infinite (negative : Bool)
  | notANumber
  deriving DecidableEq, Repr

namespace Binary64

/-- The quotient rounded to the nearest natural number, a half to the even one. -/
def roundHalfEven (num den : Nat) : Nat :=
  let q := num / den
  let r := num % den
  if 2 * r < den then q
  else if den < 2 * r then q + 1
  else if q % 2 = 0 then q else q + 1

/-- `num / den · base ^ (-exponent)` as a fraction. -/
def scaled (base num den : Nat) (exponent : Int) : Nat × Nat :=
  if 0 ≤ exponent then (num, den * Nat.pow base exponent.toNat)
  else (num * Nat.pow base (-exponent).toNat, den)

/-- The power of two for which the fraction `num / den` has 53 bits before the point, but
never less than the smallest power there is. -/
def exponentFor (num den : Nat) : Int :=
  let guess : Int := (num.log2 : Int) - (den.log2 : Int) - 53
  let s := scaled 2 num den guess
  let exponent := if s.1 < s.2 * Nat.pow 2 53 then guess else guess + 1
  max exponent (-1074)

/-- The number nearest to the positive fraction `num / den`. -/
def ofFraction (negative : Bool) (num den : Nat) : Binary64 :=
  let exponent := exponentFor num den
  let s := scaled 2 num den exponent
  let mantissa := roundHalfEven s.1 s.2
  let (mantissa, exponent) :=
    if mantissa = Nat.pow 2 53 then (Nat.pow 2 52, exponent + 1) else (mantissa, exponent)
  if 971 < exponent then .infinite negative
  else if mantissa = 0 then .finite negative 0 0
  else .finite negative mantissa exponent

/-- The number nearest to `± digits · 10 ^ exponent`.  Beyond the powers at which every number
is infinite or zero the fraction is not written out. -/
def ofDecimal (negative : Bool) (digits : Nat) (exponent : Int) : Binary64 :=
  let size : Int := (Nat.toDigits 10 digits).length + exponent
  if digits = 0 ∨ size < -400 then .finite negative 0 0
  else if 400 < size then .infinite negative
  else
    let s := scaled 10 digits 1 (-exponent)
    ofFraction negative s.1 s.2

end Binary64

end CompileJournal
