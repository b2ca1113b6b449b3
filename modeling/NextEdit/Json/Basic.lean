import NextEdit.Numeral.Decimal

/-! JSON values. An integer keeps its exact value; a number written with a fraction or an exponent
keeps its decimal digits, because rounding is the business of whoever reads it. -/
namespace NextEdit

/-- The number `±digits · 10 ^ exponent`. -/
structure Decimal where
  negative : Bool
  digits : Nat
  exponent : Int
deriving DecidableEq

namespace Json

/-- A number that is not written as an integer. -/
inductive Real
  | finite (value : Decimal)
  | infinite (negative : Bool)
  | notANumber
deriving DecidableEq

end Json

inductive Json
  | null
  | bool (value : Bool)
  | int (value : Int)
  | real (value : Json.Real)
  | string (value : Text)
  | list (items : List Json)
  | object (members : List (Text × Json))

namespace Json

/-- The last member of that name, in an object that may repeat names. -/
def member? (name : Text) (members : List (Text × Json)) : Option Json :=
  (members.reverse.find? fun (key, _) => key == name).map Prod.snd

end Json

end NextEdit
