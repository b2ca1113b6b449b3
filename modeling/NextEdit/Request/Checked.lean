import NextEdit.Span

/-! Checking data field by field. A check gives a value or every issue it met, in order, each with
the place it was met at. -/
namespace NextEdit

/-- A step from a value into one of its parts. -/
inductive Step
  | field (name : Text)
  | item (index : Nat)
deriving DecidableEq

/-- What can be wrong with a value. -/
inductive Fault
  | notJson
  | notObject
  | notList
  | missing
  | notText
  | notInteger
  | unreadableInteger
  | fractional
  | notFinite
  | tooLarge
  | negative
  | notBool
  | unreadableBool
  | unknownEvent
  | unknownModel
  | reversedSpan (start stop : Nat)
  | notNested (window : Text)
deriving DecidableEq

/-- The wording of the two faults that compare fields with each other. -/
def Fault.message? : Fault → Option Text
  | reversedSpan start stop =>
    some ("range end ".toList ++ Numeral.ofNat stop ++ " is before start ".toList ++
      Numeral.ofNat start)
  | notNested window => some (window ++ " is not inside its context range".toList)
  | _ => none

structure Issue where
  place : List Step
  fault : Fault
deriving DecidableEq

inductive Checked (α : Type)
  | valid (value : α)
  | invalid (issues : List Issue)
deriving DecidableEq

namespace Checked

def fail (fault : Fault) : Checked α :=
  invalid [{ place := [], fault }]

def map (f : α → β) : Checked α → Checked β
  | valid value => valid (f value)
  | invalid issues => invalid issues

/-- Checks both sides, whether or not the first one holds. -/
def both : Checked (α → β) → Checked α → Checked β
  | valid f, valid value => valid (f value)
  | valid _, invalid issues => invalid issues
  | invalid issues, valid _ => invalid issues
  | invalid issues, invalid more => invalid (issues ++ more)

instance : Functor Checked where
  map := map

instance : Seq Checked where
  seq f value := both f (value ())

/-- A further check that needs the value. -/
def andThen (checked : Checked α) (next : α → Checked β) : Checked β :=
  match checked with
  | valid value => next value
  | invalid issues => invalid issues

/-- Moves the issues of a part to their place in the whole. -/
def within (step : Step) : Checked α → Checked α
  | valid value => valid value
  | invalid issues =>
    invalid (issues.map fun issue => { issue with place := step :: issue.place })

/-- Checks every item, from the one numbered `index`. -/
def items (check : α → Checked β) (index : Nat) : List α → Checked (List β)
  | [] => valid []
  | item :: rest =>
    List.cons <$> within (.item index) (check item) <*> items check (index + 1) rest

end Checked

end NextEdit
