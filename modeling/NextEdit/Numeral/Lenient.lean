import NextEdit.Numeral.Decimal

/-! Integers as data may write them in a text. A numeral in exact form is read as it stands; any
other text is read in its tidied form, if that is exact. -/
namespace NextEdit.Numeral

/-- Why a text gives no integer. -/
inductive Refusal
  | unreadable
  | tooLong
deriving DecidableEq

/-- Reads the digits behind a sign, without a leading zero. The number of digits counts even where
something else follows them. -/
def readUnsigned (negative : Bool) (text : Text) : Except Refusal Int :=
  let digits := text.takeWhile Char.isDigit
  if digits.isEmpty ∨ (digits.head? = some '0' ∧ digits.length ≠ 1) then .error .unreadable
  else if digitLimit < digits.length then .error .tooLong
  else if digits.length < text.length then .error .unreadable
  else
    let size : Int := Nat.ofDigitChars 10 digits 0
    .ok (if negative then -size else size)

/-- Reads the exact form: a minus sign or none, and digits. -/
def readExact : Text → Except Refusal Int
  | '-' :: rest => readUnsigned true rest
  | rest => readUnsigned false rest

/-- Drops the rest of a run of zeros and underscores whose latest character is `last`. That one
stays where the text or its whole part ends with it; the number behind the run may be negative. -/
def dropZeros : (last : Char) → Text → Option Text
  | last, [] => some [last]
  | last, char :: rest =>
    if char = '0' ∨ char = '_' then dropZeros char rest
    else if char = '.' then some (last :: char :: rest)
    else if char.isDigit ∨ char = '-' then some (char :: rest)
    else none

/-- Drops a fraction of zeros. -/
def dropZeroFraction (text : Text) : Text :=
  let fraction := (text.dropWhile (· != '.')).drop 1
  if fraction.isEmpty || fraction.any (· != '0') then text else text.takeWhile (· != '.')

/-- Whether an underscore stands at an end or beside another one. -/
def strayUnderscore (text : Text) : Bool :=
  text.head? == some '_' || text.getLast? == some '_' || (text.zip text.tail).contains ('_', '_')

/-- Drops blanks around a numeral, a plus sign, leading zeros, a fraction of zeros and underscores
between digits. -/
def tidy? (text : Text) : Option Text := do
  let (negative, unsigned) ←
    match Text.trim Text.isBlank text with
    | '+' :: '-' :: _ => none
    | '+' :: rest => some (false, rest)
    | '-' :: rest => some (true, rest)
    | rest => some (false, rest)
  let size ←
    match unsigned with
    | '0' :: rest => dropZeros '0' rest
    | char :: _ => if char.isDigit then some unsigned else none
    | [] => none
  let size := dropZeroFraction size
  if strayUnderscore size then none
  else
    let size := size.filter (· != '_')
    return if negative then '-' :: size else size

/-- Reads a text as it stands, or else in its tidied form. Only the first reading tells a numeral
that is too long from other texts. -/
def readLenient (text : Text) : Except Refusal Int :=
  match readExact text with
  | .error .unreadable =>
    match (tidy? text).map readExact with
    | some (.ok value) => .ok value
    | _ => .error .unreadable
  | settled => settled

end NextEdit.Numeral
