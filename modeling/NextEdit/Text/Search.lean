import NextEdit.Text.Basic

/-! Occurrences of a marker in a text. Markers are non-empty; `splitFirst?` cuts around the first
occurrence, `eraseAll` and `count` scan from the left and never overlap two occurrences. -/
namespace NextEdit.Text

/-- What follows `marker` in a text that starts with it. -/
def after? (marker text : Text) : Option Text :=
  marker.isPrefixOf? text

/-- The texts before and after the first occurrence of `marker`. -/
def splitFirst? (marker : Text) : Text → Option (Text × Text)
  | [] => if marker.isEmpty then some ([], []) else none
  | char :: rest =>
    match after? marker (char :: rest) with
    | some tail => some ([], tail)
    | none => (splitFirst? marker rest).map fun (before, tail) => (char :: before, tail)

/-- The byte offset of the first occurrence of `marker`. -/
def find? (marker text : Text) : Option Nat :=
  (splitFirst? marker text).map fun (before, _) => byteCount before

def contains (marker text : Text) : Bool :=
  (splitFirst? marker text).isSome

def eraseFrom (size : Text → Nat) : Nat → Text → Text
  | _, [] => []
  | skip + 1, _ :: rest => eraseFrom size skip rest
  | 0, char :: rest =>
    match size (char :: rest) with
    | 0 => char :: eraseFrom size 0 rest
    | skip + 1 => eraseFrom size skip rest

/-- Scans from the left and leaves out what `size` measures at the start of the remaining text. -/
def eraseEach (size : Text → Nat) (text : Text) : Text :=
  eraseFrom size 0 text

/-- The text without any occurrence of `marker` met from left to right. -/
def eraseAll (marker text : Text) : Text :=
  eraseEach (fun rest => if marker.isPrefixOf rest then marker.length else 0) text

def countFrom (marker : Text) : Nat → Text → Nat
  | _, [] => 0
  | skip + 1, _ :: rest => countFrom marker skip rest
  | 0, char :: rest =>
    if marker.isPrefixOf (char :: rest) then countFrom marker (marker.length - 1) rest + 1
    else countFrom marker 0 rest

/-- How many occurrences of `marker` a scan from the left meets. -/
def count (marker text : Text) : Nat :=
  countFrom marker 0 text

/-- The text before a final `ending`, or the whole text where it does not end so. -/
def dropEnding (ending text : Text) : Text :=
  if ending.isSuffixOf text then text.take (text.length - ending.length) else text

/-- Splits at every occurrence of one character, which is dropped. -/
def splitAtChar (separator : Char) : Text → List Text
  | [] => [[]]
  | char :: rest =>
    match splitAtChar separator rest with
    | [] => [[char]]
    | part :: parts =>
      if char = separator then [] :: part :: parts else (char :: part) :: parts

/-- Joins with a separator between neighbours. -/
def join (separator : Text) : List Text → Text
  | [] => []
  | [text] => text
  | text :: rest => text ++ separator ++ join separator rest

end NextEdit.Text
