import NextEdit.Request.Decode
import NextEdit.Request.Encode

/-! Members of an object: where each one stands, and what the checks make of a written member. -/
namespace NextEdit

namespace Checked

@[simp] theorem map_valid (f : α → β) (value : α) : f <$> valid value = valid (f value) := rfl

@[simp] theorem seq_valid (f : α → β) (value : α) : valid f <*> valid value = valid (f value) := rfl

@[simp] theorem andThen_valid (value : α) (next : α → Checked β) :
    andThen (valid value) next = next value := rfl

@[simp] theorem within_valid (step : Step) (value : α) : within step (valid value) = valid value := rfl

end Checked

namespace Json

section Lookup

variable {name key : Text}

theorem member?_nil : member? name [] = none := rfl

theorem member?_append (front back : List (Text × Json)) :
    member? name (front ++ back) = (member? name back).or (member? name front) := by
  rw [member?, List.reverse_append, List.find?_append, Option.map_or]
  rfl

theorem member?_singleton (value : Json) :
    member? name [(key, value)] = if key = name then some value else none := by
  by_cases same : key = name <;> simp [member?, same]

theorem member?_cons (value : Json) (rest : List (Text × Json)) :
    member? name ((key, value) :: rest) =
      (member? name rest).or (if key = name then some value else none) := by
  rw [← List.singleton_append, member?_append, member?_singleton]

theorem member?_present (value : Option Json) :
    member? name (Request.present key value) = if key = name then value else none := by
  cases value with
  | none => exact (ite_self none).symm
  | some json => exact member?_singleton json

end Lookup

section Written

@[simp] theorem checkText_string (value : Text) : checkText (string value) = .valid value := rfl

@[simp] theorem checkBool_bool (value : Bool) : checkBool (bool value) = .valid value := rfl

@[simp] theorem checkInteger_int (value : Int) : checkInteger (int value) = .valid value := rfl

@[simp] theorem checkNatural_int (value : Nat) : checkNatural (int value) = .valid value := by
  have natural : ¬(value : Int) < 0 := by omega
  simp [checkNatural, natural]

@[simp] theorem checkObject_object (check : List (Text × Json) → Checked α)
    (members : List (Text × Json)) : checkObject check (object members) = check members := rfl

theorem items_map {check : Json → Checked α} {write : α → Json}
    (holds : ∀ value, check (write value) = .valid value) (index : Nat) (values : List α) :
    Checked.items check index (values.map write) = .valid values := by
  induction values generalizing index with
  | nil => rfl
  | cons value values ih => simp [Checked.items, holds, ih]

theorem checkList_map {check : Json → Checked α} {write : α → Json}
    (holds : ∀ value, check (write value) = .valid value) (values : List α) :
    checkList check (list (values.map write)) = .valid values :=
  items_map holds 0 values

end Written

end Json

end NextEdit
