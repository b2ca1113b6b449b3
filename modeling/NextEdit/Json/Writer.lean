import NextEdit.Json.Basic

/-! Written JSON. One writer serves three layouts: compact with raw text, compact in ASCII, and
indented in ASCII. They differ only in how characters are escaped and where lines break. -/
namespace NextEdit.Json

def hexDigit (value : Nat) : Char :=
  if value < 10 then Char.ofNat (0x30 + value) else Char.ofNat (0x57 + value)

/-- The escape `\uXXXX` of one 16-bit unit. -/
def unitEscape (unit : Nat) : Text :=
  ['\\', 'u', hexDigit (unit / 4096 % 16), hexDigit (unit / 256 % 16), hexDigit (unit / 16 % 16),
    hexDigit (unit % 16)]

/-- The characters that have an escape of two characters. -/
def shortEscape? (char : Char) : Option Text :=
  match char.toNat with
  | 0x22 => some ['\\', '"']
  | 0x5C => some ['\\', '\\']
  | 0x08 => some ['\\', 'b']
  | 0x0C => some ['\\', 'f']
  | 0x0A => some ['\\', 'n']
  | 0x0D => some ['\\', 'r']
  | 0x09 => some ['\\', 't']
  | _ => none

/-- Escapes quotes, backslashes and control characters only. -/
def escapeControl (char : Char) : Text :=
  match shortEscape? char with
  | some escape => escape
  | none => if char.toNat < 0x20 then unitEscape char.toNat else [char]

/-- Escapes all but printable ASCII; a character past U+FFFF takes a surrogate pair. -/
def escapeAscii (char : Char) : Text :=
  match shortEscape? char with
  | some escape => escape
  | none =>
    let code := char.toNat
    if 0x20 ≤ code ∧ code < 0x7F then [char]
    else if code < 0x10000 then unitEscape code
    else
      unitEscape (0xD800 + (code - 0x10000) / 0x400) ++
        unitEscape (0xDC00 + (code - 0x10000) % 0x400)

structure Layout where
  escape : Char → Text
  /-- What starts a line at a nesting level. -/
  lineStart : Nat → Text
  colon : Text

def Layout.compact : Layout where
  escape := escapeControl
  lineStart _ := []
  colon := [':']

def Layout.ascii : Layout where
  escape := escapeAscii
  lineStart _ := []
  colon := [':']

def Layout.indented : Layout where
  escape := escapeAscii
  lineStart level := '\n' :: List.replicate (2 * level) ' '
  colon := [':', ' ']

def quote (escape : Char → Text) (text : Text) : Text :=
  '"' :: (text.flatMap escape ++ ['"'])

/-- Writes a number as a fraction with an exponent, so that its whole part has one digit. -/
def Real.write : Real → Text
  | .finite value =>
    let digits := Numeral.ofNat value.digits
    (if value.negative then ['-'] else []) ++ "0.".toList ++ digits ++ ['e'] ++
      Numeral.ofInt (value.exponent + digits.length)
  | .infinite negative => (if negative then ['-'] else []) ++ "Infinity".toList
  | .notANumber => "NaN".toList

mutual

def writeAt (layout : Layout) (level : Nat) : Json → Text
  | null => "null".toList
  | bool true => "true".toList
  | bool false => "false".toList
  | int value => Numeral.ofInt value
  | real value => value.write
  | string value => quote layout.escape value
  | list [] => ['[', ']']
  | list (first :: rest) =>
    '[' :: (layout.lineStart (level + 1) ++ writeAt layout (level + 1) first ++
      writeItems layout (level + 1) rest ++ layout.lineStart level ++ [']'])
  | object [] => ['\x7b', '\x7d']
  | object ((name, first) :: rest) =>
    '\x7b' :: (layout.lineStart (level + 1) ++ quote layout.escape name ++ layout.colon ++
      writeAt layout (level + 1) first ++ writeMembers layout (level + 1) rest ++
      layout.lineStart level ++ ['\x7d'])

/-- The items after the first, each behind a comma. -/
def writeItems (layout : Layout) (level : Nat) : List Json → Text
  | [] => []
  | item :: rest =>
    ',' :: (layout.lineStart level ++ writeAt layout level item ++ writeItems layout level rest)

/-- The members after the first, each behind a comma. -/
def writeMembers (layout : Layout) (level : Nat) : List (Text × Json) → Text
  | [] => []
  | (name, value) :: rest =>
    ',' :: (layout.lineStart level ++ quote layout.escape name ++ layout.colon ++
      writeAt layout level value ++ writeMembers layout level rest)

end

def write (layout : Layout) (json : Json) : Text :=
  writeAt layout 0 json

end NextEdit.Json
