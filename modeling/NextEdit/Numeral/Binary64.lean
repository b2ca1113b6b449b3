import NextEdit.Json.Basic

/-! The binary64 number nearest to a decimal one, in exact integer arithmetic. A reader that keeps
numbers in binary64 sees this value, so it decides whether a numeral counts as an integer. -/
namespace NextEdit

/-- A size that binary64 can hold: `mantissa · 2 ^ exponent`, or past its largest number. -/
inductive Binary64
  | finite (mantissa : Nat) (exponent : Int)
  | infinite
deriving DecidableEq

namespace Binary64

/-- The integer nearest to a quotient; of two equally near, the even one. -/
def roundHalfEven (numerator denominator : Nat) : Nat :=
  let quotient := numerator / denominator
  let twice := 2 * (numerator % denominator)
  if twice < denominator ∨ (twice = denominator ∧ quotient % 2 = 0) then quotient else quotient + 1

/-- A quotient divided by a power of two, as a quotient. -/
def scale (numerator denominator : Nat) (exponent : Int) : Nat × Nat :=
  (numerator <<< (-exponent).toNat, denominator <<< exponent.toNat)

/-- The nearest size to a positive quotient. The mantissa has 53 binary digits, fewer only at the
least exponent. -/
def ofQuotient (numerator denominator : Nat) : Binary64 :=
  let estimate : Int := numerator.log2 - denominator.log2 - 53
  let (top, bottom) := scale numerator denominator estimate
  let exponent := max (if bottom <<< 53 ≤ top then estimate + 1 else estimate) (-1074)
  let (top, bottom) := scale numerator denominator exponent
  let mantissa := roundHalfEven top bottom
  let (mantissa, exponent) :=
    if mantissa = 1 <<< 53 then (1 <<< 52, exponent + 1) else (mantissa, exponent)
  if 971 < exponent then infinite else finite mantissa exponent

/-- The nearest size to `digits · 10 ^ exponent`; sizes that no rounding could save are settled by
the place of the leading digit. -/
def ofDecimal (digits : Nat) (exponent : Int) : Binary64 :=
  if digits = 0 then finite 0 0
  else
    let leading := (Nat.toDigits 10 digits).length + exponent
    if 310 < leading then infinite
    else if leading < -330 then finite 0 0
    else ofQuotient (digits * Nat.pow 10 exponent.toNat) (Nat.pow 10 (-exponent).toNat)

/-- The value, when it is an integer. -/
def integer? : Binary64 → Option Nat
  | infinite => none
  | finite mantissa exponent =>
    let unit := 1 <<< (-exponent).toNat
    if mantissa % unit = 0 then some ((mantissa / unit) <<< exponent.toNat) else none

end Binary64

end NextEdit
