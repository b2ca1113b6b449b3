import NextEdit.Json.Basic
import NextEdit.Text.Search

/-! Reading JSON strictly: no comments, trailing commas, leading zeros, raw control characters or
lone surrogates, and nothing after the value. `NaN` and the infinities are numbers. The nesting
limit is the measure on which the reader recurs. -/
namespace NextEdit.Json

/-- A reader gives what it read and the text after it. -/
abbrev Reader (α : Type) := Text → Option (α × Text)

def isSpace (char : Char) : Bool :=
  char == ' ' || char == '\n' || char == '\t' || char == '\r'

def skipSpace (text : Text) : Text :=
  text.dropWhile isSpace

def hexValue? (char : Char) : Option Nat :=
  if '0' ≤ char ∧ char ≤ '9' then some (char.toNat - 0x30)
  else if 'a' ≤ char ∧ char ≤ 'f' then some (char.toNat - 0x57)
  else if 'A' ≤ char ∧ char ≤ 'F' then some (char.toNat - 0x37)
  else none

/-- The 16-bit unit that four hexadecimal digits spell. -/
def unit? (first second third fourth : Char) : Option Nat := do
  return (((← hexValue? first) * 16 + (← hexValue? second)) * 16 + (← hexValue? third)) * 16 +
    (← hexValue? fourth)

/-- The character of a surrogate pair. -/
def pair? (high low : Nat) : Option Char :=
  if 0xDC00 ≤ low ∧ low < 0xE000 then
    some (Char.ofNat (0x10000 + (high - 0xD800) * 0x400 + (low - 0xDC00)))
  else none

/-- The character that a one-letter escape stands for. -/
def escaped? : Char → Option Char
  | '"' => some '"'
  | '\\' => some '\\'
  | '/' => some '/'
  | 'b' => some '\x08'
  | 'f' => some '\x0c'
  | 'n' => some '\n'
  | 'r' => some '\r'
  | 't' => some '\t'
  | _ => none

def prepend (char : Char) (read : Option (Text × Text)) : Option (Text × Text) :=
  read.map fun (text, rest) => (char :: text, rest)

/-- Reads the rest of a string whose opening quote is gone. -/
def readString : Reader Text
  | [] => none
  | '"' :: rest => some ([], rest)
  | '\\' :: 'u' :: a :: b :: c :: d :: rest =>
    match unit? a b c d with
    | none => none
    | some unit =>
      if unit < 0xD800 ∨ 0xE000 ≤ unit then prepend (Char.ofNat unit) (readString rest)
      else if 0xDC00 ≤ unit then none
      else
        match rest with
        | '\\' :: 'u' :: e :: f :: g :: h :: rest =>
          match (unit? e f g h).bind (pair? unit) with
          | none => none
          | some char => prepend char (readString rest)
        | _ => none
  | '\\' :: letter :: rest =>
    match escaped? letter with
    | none => none
    | some char => prepend char (readString rest)
  | char :: rest =>
    if char.toNat < 0x20 ∨ char = '\\' then none else prepend char (readString rest)

/-- Reads a run of at least one digit. -/
def readDigits : Reader Text := fun text =>
  let digits := text.takeWhile Char.isDigit
  if digits.isEmpty then none else some (digits, text.dropWhile Char.isDigit)

/-- Reads the digits before the point: no leading zero, and at most `Numeral.digitLimit`. -/
def readWhole : Reader Text := fun text => do
  let (digits, rest) ← readDigits text
  if digits.length ≤ Numeral.digitLimit ∧ (digits.head? ≠ some '0' ∨ digits.length = 1) then
    return (digits, rest)
  else none

/-- Reads a point and the digits after it, if there is a point. -/
def readFraction : Reader (Option Text)
  | '.' :: rest => (readDigits rest).map fun (digits, rest) => (some digits, rest)
  | rest => some (none, rest)

/-- Whether a text starts with a minus sign, and what follows its sign. -/
def dropSign : Text → Bool × Text
  | '-' :: unsigned => (true, unsigned)
  | '+' :: unsigned => (false, unsigned)
  | unsigned => (false, unsigned)

/-- Reads an exponent, if there is one. -/
def readExponent : Reader (Option Int)
  | char :: rest =>
    if char = 'e' ∨ char = 'E' then
      let (negative, unsigned) := dropSign rest
      (readDigits unsigned).map fun (digits, rest) =>
        let size : Int := Nat.ofDigitChars 10 digits 0
        (some (if negative then -size else size), rest)
    else some (none, char :: rest)
  | [] => some (none, [])

/-- Reads a number behind its sign. -/
def readUnsigned (negative : Bool) : Reader Json := fun text =>
  match Text.after? "Infinity".toList text with
  | some rest => some (real (.infinite negative), rest)
  | none => do
    let (whole, rest) ← readWhole text
    let (fraction, rest) ← readFraction rest
    let (exponent, rest) ← readExponent rest
    let digits := Nat.ofDigitChars 10 (whole ++ fraction.getD []) 0
    if fraction.isNone ∧ exponent.isNone then
      return (int (if negative then -(digits : Int) else digits), rest)
    else
      let exponent := exponent.getD 0 - (fraction.getD []).length
      return (real (.finite { negative, digits, exponent }), rest)

def readNumber : Reader Json
  | '-' :: rest => readUnsigned true rest
  | rest => readUnsigned false rest

/-- Reads a value that starts with none of `"`, `[` and an opening brace. -/
def readPlain : Reader Json := fun text =>
  match Text.after? "null".toList text with
  | some rest => some (null, rest)
  | none =>
  match Text.after? "true".toList text with
  | some rest => some (bool true, rest)
  | none =>
  match Text.after? "false".toList text with
  | some rest => some (bool false, rest)
  | none =>
  match Text.after? "NaN".toList text with
  | some rest => some (real .notANumber, rest)
  | none => readNumber text

/-- Reads up to `count` elements with a comma between neighbours, and the character that closes
them. -/
def readUpTo (close : Char) (element : Reader α) : (count : Nat) → Reader (List α)
  | 0, _ => none
  | count + 1, text => do
    let (first, rest) ← element text
    match skipSpace rest with
    | [] => none
    | char :: rest =>
      if char = ',' then
        (readUpTo close element count rest).map fun (elements, rest) => (first :: elements, rest)
      else if char = close then some ([first], rest)
      else none

/-- No text holds more elements than it has commas, and one. -/
def mostElements (text : Text) : Nat :=
  List.count ',' text + 1

/-- Reads what a list or an object encloses: nothing, or elements up to the character that closes
it. Without a reader of elements there may be none. -/
def readEnclosed (close : Char) (element : Option (Reader α)) : Reader (List α) := fun text =>
  match skipSpace text with
  | [] => none
  | char :: rest =>
    if char = close then some ([], rest)
    else do readUpTo close (← element) (mostElements text) text

/-- Reads a name, its colon and its value. -/
def readMember (item : Reader Json) : Reader (Text × Json) := fun text =>
  match skipSpace text with
  | '"' :: rest => do
    let (name, rest) ← readString rest
    match skipSpace rest with
    | ':' :: rest => (item rest).map fun (value, rest) => ((name, value), rest)
    | _ => none
  | _ => none

/-- Reads a value whose items are read by `item`; without it, nothing may be nested. -/
def readWith (item : Option (Reader Json)) : Reader Json := fun text =>
  match skipSpace text with
  | '"' :: rest => (readString rest).map fun (value, rest) => (string value, rest)
  | '[' :: rest => (readEnclosed ']' item rest).map fun (items, rest) => (list items, rest)
  | '\x7b' :: rest =>
    (readEnclosed '\x7d' (item.map readMember) rest).map fun (members, rest) =>
      (object members, rest)
  | rest => readPlain rest

/-- Reads a value nested at most `depth` deep, where empty lists and objects do not count. -/
def readValue : (depth : Nat) → Reader Json
  | 0 => readWith none
  | depth + 1 => readWith (some (readValue depth))

/-- The value that a whole text spells, nested at most `depth` deep. -/
def read? (depth : Nat) (text : Text) : Option Json := do
  let (value, rest) ← readValue depth text
  if (skipSpace rest).isEmpty then return value else none

end NextEdit.Json
