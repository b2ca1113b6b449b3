import NextEdit.Numeral.Binary64

/-! The shortest decimal text of a binary64 number: the fewest digits that read back to it, and of
those the nearest. Sizes from 0.0001 up to 10 ^ 16 are written in place, others with an exponent. -/
namespace NextEdit

namespace Binary64

/-- The power of ten of the leading digit of a positive quotient. -/
def leadingPower (numerator denominator : Nat) : Int :=
  let estimate : Int :=
    (Nat.toDigits 10 numerator).length - ((Nat.toDigits 10 denominator).length : Int)
  if denominator * Nat.pow 10 estimate.toNat ≤ numerator * Nat.pow 10 (-estimate).toNat then
    estimate
  else estimate - 1

/-- The nearer of the two neighbours of a quotient on the grid `10 ^ power` that read back to
`size`; the lower one where both are equally near. -/
def readsBack? (size : Binary64) (numerator denominator : Nat) (power : Int) : Option Nat :=
  let top := numerator * Nat.pow 10 (-power).toNat
  let bottom := denominator * Nat.pow 10 power.toNat
  let lower := top / bottom
  let neighbours :=
    if 2 * (top % bottom) ≤ bottom then [lower, lower + 1] else [lower + 1, lower]
  neighbours.find? fun digits => ofDecimal digits power == size

/-- The digits and the power of ten of the last of them. -/
def shortest : Binary64 → Nat × Int
  | infinite => (0, 0)
  | finite mantissa exponent =>
    let numerator := mantissa <<< exponent.toNat
    let denominator := 1 <<< (-exponent).toNat
    let leading := leadingPower numerator denominator
    let grids : List Int := (List.range 17).map fun extra : Nat => leading - (extra : Int)
    (grids.findSome? fun power =>
      (readsBack? (finite mantissa exponent) numerator denominator power).map (·, power)).getD
        (0, 0)

/-- The text of a positive size. -/
def text (size : Binary64) : Text :=
  let (value, power) := size.shortest
  let digits := ((Numeral.ofNat value).reverse.dropWhile (· == '0')).reverse
  let leading := (Numeral.ofNat value).length + power - 1
  if leading < -4 ∨ 16 ≤ leading then
    let fraction := digits.drop 1
    let size := Numeral.ofNat leading.natAbs
    digits.take 1 ++ (if fraction.isEmpty then [] else '.' :: fraction) ++ ['e'] ++
      (if leading < 0 then ['-'] else ['+']) ++ (if size.length < 2 then '0' :: size else size)
  else if leading < 0 then
    "0.".toList ++ List.replicate (-leading - 1).toNat '0' ++ digits
  else
    let whole := leading.toNat + 1
    let fraction := digits.drop whole
    digits.take whole ++ List.replicate (whole - digits.length) '0' ++ ['.'] ++
      (if fraction.isEmpty then ['0'] else fraction)

end Binary64

namespace Json.Real

def size : Real → Binary64
  | finite value => Binary64.ofDecimal value.digits value.exponent
  | infinite _ | notANumber => .infinite

def isNegative : Real → Bool
  | finite value => value.negative
  | infinite negative => negative
  | notANumber => false

def isZero (value : Real) : Bool :=
  match value.size with
  | .finite mantissa _ => mantissa == 0
  | .infinite => false

/-- The text of the nearest binary64 number. -/
def text (value : Real) : Text :=
  if value = .notANumber then "nan".toList
  else
    let size :=
      if value.isZero then "0.0".toList
      else if value.size = .infinite then "inf".toList
      else value.size.text
    if value.isNegative then '-' :: size else size

end Json.Real

end NextEdit
