import NextEdit.Json.Basic
import NextEdit.Numeral.Binary64
import NextEdit.Numeral.Lenient
import NextEdit.Request.Checked
import NextEdit.Text.Letter

/-! Texts, integers and flags as requests may write them. An integer may also come as a number
without a fraction, as a flag, or as a text; a flag also as 0, 1 or a word. -/
namespace NextEdit.Json

def checkText : Json → Checked Text
  | string value => .valid value
  | _ => .fail .notText

/-- Reads an integer from a text. -/
def integerOfText (text : Text) : Checked Int :=
  match Numeral.readLenient text with
  | .ok value => .valid value
  | .error .unreadable => .fail .unreadableInteger
  | .error .tooLong => .fail .tooLarge

/-- Where the sizes of signed 64-bit words end. -/
def wordBound : Nat := 1 <<< 63

/-- The integer that a number written with a fraction or an exponent stands for. -/
def Real.checkInteger : Real → Checked Int
  | .infinite _ | .notANumber => .fail .notFinite
  | .finite value =>
    match Binary64.ofDecimal value.digits value.exponent with
    | .infinite => .fail .notFinite
    | size =>
      match size.integer? with
      | none => .fail .fractional
      | some size =>
        if size < wordBound then .valid (if value.negative then -(size : Int) else size)
        else .fail .tooLarge

def checkInteger : Json → Checked Int
  | int value => .valid value
  | bool value => .valid (if value then 1 else 0)
  | real value => value.checkInteger
  | string value => integerOfText value
  | _ => .fail .notInteger

def checkNatural (json : Json) : Checked Nat :=
  (checkInteger json).andThen fun value =>
    if value < 0 then .fail .negative else .valid value.toNat

/-- The flag that a word stands for. -/
def flagOfText? (text : Text) : Option Bool :=
  let isAmong (words : List String) := (words.map String.toList).contains (Text.lower text)
  if isAmong ["1", "t", "true", "y", "yes", "on"] then some true
  else if isAmong ["0", "f", "false", "n", "no", "off"] then some false
  else none

/-- The flag that a number stands for. -/
def flagOfInt (value : Int) : Checked Bool :=
  if value = 0 then .valid false else if value = 1 then .valid true else .fail .unreadableBool

/-- Whether a number is a signed 64-bit word; numbers past that range are not taken for flags. -/
def isWord (value : Int) : Bool :=
  -(wordBound : Int) ≤ value && value < wordBound

def checkBool : Json → Checked Bool
  | bool value => .valid value
  | int value => if isWord value then flagOfInt value else .fail .notBool
  | real value =>
    match value.checkInteger with
    | .valid value => flagOfInt value
    | .invalid _ => .fail .notBool
  | string value =>
    match flagOfText? value with
    | some flag => .valid flag
    | none => .fail .unreadableBool
  | _ => .fail .notBool

/-- Nothing, or a value under a check. -/
def checkOptional (check : Json → Checked α) : Json → Checked (Option α)
  | null => .valid none
  | json => some <$> check json

def checkList (check : Json → Checked α) : Json → Checked (List α)
  | list items => Checked.items check 0 items
  | _ => .fail .notList

/-- Checks the members of an object. -/
def checkObject (check : List (Text × Json) → Checked α) : Json → Checked α
  | object members => check members
  | _ => .fail .notObject

/-- Checks a member that has to be there. -/
def required (name : Text) (check : Json → Checked α) (members : List (Text × Json)) : Checked α :=
  Checked.within (.field name)
    (match member? name members with
    | some value => check value
    | none => .fail .missing)

/-- Checks a member that has a default. -/
def optional (name : Text) (default : α) (check : Json → Checked α)
    (members : List (Text × Json)) : Checked α :=
  match member? name members with
  | some value => Checked.within (.field name) (check value)
  | none => .valid default

end NextEdit.Json
