import NextEdit.Json.Reader
import NextEdit.Json.Writer
import NextEdit.Proofs.Text.Occurrence

/-! Numbers are read back as they were written. What follows a number must not carry it on, and no
integer is read that has more than `Numeral.digitLimit` digits. -/
namespace NextEdit

namespace Numeral

/-- The integer has no more digits than a reader takes. -/
def IsShort (value : Int) : Prop :=
  (ofNat value.natAbs).length ≤ digitLimit

instance (value : Int) : Decidable (IsShort value) :=
  inferInstanceAs (Decidable (_ ≤ _))

theorem isDigit_of_mem_ofNat (member : char ∈ ofNat value) : char.isDigit = true :=
  Nat.isDigit_of_mem_toDigits (by decide) (by decide) member

theorem ofNat_ne_nil (value : Nat) : ofNat value ≠ [] :=
  Nat.toDigits_ne_nil

theorem ofNat_of_ten_le (large : 10 ≤ value) :
    ofNat value = ofNat (value / 10) ++ [Nat.digitChar (value % 10)] :=
  Nat.toDigits_of_base_le (by decide) large

theorem digitChar_ne_zero (positive : 0 < digit) (small : digit < 10) : Nat.digitChar digit ≠ '0' := by
  have table : ∀ digit < 10, 0 < digit → Nat.digitChar digit ≠ '0' := by
    decide
  exact table digit small positive

/-- Only zero starts with a zero. -/
theorem head?_ofNat_ne (positive : 0 < value) : (ofNat value).head? ≠ some '0' := by
  induction value using Nat.strongRecOn with
  | ind value ih =>
    by_cases small : value < 10
    · have single : ofNat value = [Nat.digitChar value] := Nat.toDigits_of_lt_base small
      rw [single, List.head?_cons]
      exact fun zero => digitChar_ne_zero positive small (Option.some.inj zero)
    · have leading := ih (value / 10) (by omega) (by omega)
      rw [ofNat_of_ten_le (by omega), List.head?_append_of_ne_nil _ (ofNat_ne_nil _)]
      exact leading

/-- No written number has a zero in front of other digits. -/
theorem no_leading_zero (value : Nat) :
    (ofNat value).head? ≠ some '0' ∨ (ofNat value).length = 1 := by
  cases value with
  | zero => exact .inr rfl
  | succ value => exact .inl (head?_ofNat_ne (Nat.succ_pos value))

end Numeral

namespace Json

/-- The text carries on no number that stands in front of it. -/
def EndsNumber (rest : Text) : Prop :=
  ∀ char ∈ rest.head?, char.isDigit = false ∧ char ≠ '.' ∧ char ≠ 'e' ∧ char ≠ 'E'

section Reading

variable {rest : Text}

theorem endsNumber_nil : EndsNumber [] := by
  intro char member
  cases member

theorem endsNumber_cons (ends : char.isDigit = false ∧ char ≠ '.' ∧ char ≠ 'e' ∧ char ≠ 'E')
    (rest : Text) : EndsNumber (char :: rest) := by
  intro other member
  cases Option.some.inj member
  exact ends

/-- A run of digits ends where something else stands. -/
theorem readDigits_append {digits : Text} (full : digits ≠ [])
    (all : ∀ char ∈ digits, char.isDigit = true) (ends : ∀ char ∈ rest.head?, char.isDigit = false) :
    readDigits (digits ++ rest) = some (digits, rest) := by
  have taken : (digits ++ rest).takeWhile Char.isDigit = digits ∧
      (digits ++ rest).dropWhile Char.isDigit = rest := by
    rw [List.takeWhile_append_of_pos all, List.dropWhile_append_of_pos all]
    cases rest with
    | nil => simp
    | cons char rest => simp [ends char rfl]
  simp only [readDigits, taken, List.isEmpty_eq_false_iff.mpr full, if_false, Bool.false_eq_true]

theorem readDigits_ofNat (ends : ∀ char ∈ rest.head?, char.isDigit = false) (value : Nat) :
    readDigits (Numeral.ofNat value ++ rest) = some (Numeral.ofNat value, rest) :=
  readDigits_append (Numeral.ofNat_ne_nil value) (fun _ => Numeral.isDigit_of_mem_ofNat) ends

theorem readWhole_ofNat {value : Nat} (short : (Numeral.ofNat value).length ≤ Numeral.digitLimit)
    (ends : ∀ char ∈ rest.head?, char.isDigit = false) :
    readWhole (Numeral.ofNat value ++ rest) = some (Numeral.ofNat value, rest) := by
  simp only [readWhole, readDigits_ofNat ends, Option.bind_eq_bind, Option.bind_some,
    if_pos (And.intro short (Numeral.no_leading_zero value))]
  rfl

/-- What a digit run must satisfy to stand in front of the point. -/
theorem readDigits_of_readWhole {text digits : Text} (reads : readWhole text = some (digits, rest)) :
    readDigits text = some (digits, rest) ∧ digits.length ≤ Numeral.digitLimit ∧
      (digits.head? ≠ some '0' ∨ digits.length = 1) := by
  obtain ⟨⟨found, behind⟩, here, checked⟩ := Option.bind_eq_some_iff.mp reads
  simp only at checked
  split at checked
  · rename_i holds
    cases checked
    exact ⟨here, holds⟩
  · cases checked

theorem EndsNumber.notDigit (ends : EndsNumber rest) : ∀ char ∈ rest.head?, char.isDigit = false :=
  fun char member => (ends char member).1

theorem readFraction_of_ends (ends : EndsNumber rest) : readFraction rest = some (none, rest) := by
  rw [readFraction]
  rintro others rfl
  exact (ends '.' rfl).2.1 rfl

theorem readExponent_of_ends (ends : EndsNumber rest) : readExponent rest = some (none, rest) := by
  cases rest with
  | nil => rfl
  | cons char rest =>
    obtain ⟨_, _, lower, upper⟩ := ends char rfl
    exact if_neg (not_or.mpr ⟨lower, upper⟩)

theorem after?_eq_none_of_head (starts : marker.head? = some first)
    (other : text.head? ≠ some first) : Text.after? marker text = none := by
  apply Text.after?_eq_none
  rintro ⟨tail, rfl⟩
  rw [List.head?_append, starts] at other
  exact other rfl

/-- A numeral starts with a digit, whatever follows it. -/
theorem head?_ofNat_append_ne (value : Nat) (rest : Text) (letter : char.isDigit = false) :
    (Numeral.ofNat value ++ rest).head? ≠ some char := by
  intro starts
  rw [List.head?_append_of_ne_nil _ (Numeral.ofNat_ne_nil value)] at starts
  have digit := Numeral.isDigit_of_mem_ofNat (List.mem_of_mem_head? starts)
  rw [letter] at digit
  cases digit

theorem infinity_head : "Infinity".toList.head? = some 'I' := by
  decide

theorem readUnsigned_ofNat {value : Nat} (short : (Numeral.ofNat value).length ≤ Numeral.digitLimit)
    (ends : EndsNumber rest) (negative : Bool) :
    readUnsigned negative (Numeral.ofNat value ++ rest) =
      some (int (if negative then -(value : Int) else value), rest) := by
  have word : Text.after? "Infinity".toList (Numeral.ofNat value ++ rest) = none :=
    after?_eq_none_of_head infinity_head (head?_ofNat_append_ne value rest (by decide))
  have size : Nat.ofDigitChars 10 (Numeral.ofNat value) 0 = value := Nat.ofDigitChars_ten_toDigits
  simp only [readUnsigned, word, readWhole_ofNat short ends.notDigit, readFraction_of_ends ends,
    readExponent_of_ends ends, Option.bind_eq_bind, Option.bind_some, Option.getD_none,
    List.append_nil, size, Option.isNone_none, and_self, if_true]
  rfl

theorem readNumber_ofNat_append (value : Nat) (rest : Text) :
    readNumber (Numeral.ofNat value ++ rest) = readUnsigned false (Numeral.ofNat value ++ rest) := by
  rw [readNumber]
  intro others starts
  exact head?_ofNat_append_ne value rest (by decide) (congrArg List.head? starts)

theorem readNumber_ofInt {value : Int} (short : Numeral.IsShort value) (ends : EndsNumber rest) :
    readNumber (Numeral.ofInt value ++ rest) = some (int value, rest) := by
  cases value with
  | ofNat size => exact (readNumber_ofNat_append size rest).trans (readUnsigned_ofNat short ends false)
  | negSucc size => exact readUnsigned_ofNat short ends true

theorem dropSign_ofNat_append (value : Nat) (rest : Text) :
    dropSign (Numeral.ofNat value ++ rest) = (false, Numeral.ofNat value ++ rest) := by
  rw [dropSign]
  · intro others starts
    exact head?_ofNat_append_ne value rest (by decide) (congrArg List.head? starts)
  · intro others starts
    exact head?_ofNat_append_ne value rest (by decide) (congrArg List.head? starts)

theorem readExponent_ofInt (ends : EndsNumber rest) (value : Int) :
    readExponent ('e' :: (Numeral.ofInt value ++ rest)) = some (some value, rest) := by
  cases value with
  | ofNat size =>
    have digits := readDigits_ofNat ends.notDigit size
    have value : Nat.ofDigitChars 10 (Numeral.ofNat size) 0 = size := Nat.ofDigitChars_ten_toDigits
    simp only [Numeral.ofInt, readExponent, dropSign_ofNat_append, true_or, if_true, digits,
      Option.map_some, value, Bool.false_eq_true, if_false]
    rfl
  | negSucc size =>
    have digits := readDigits_ofNat ends.notDigit (size + 1)
    have value : Nat.ofDigitChars 10 (Numeral.ofNat (size + 1)) 0 = size + 1 :=
      Nat.ofDigitChars_ten_toDigits
    simp only [Numeral.ofInt, List.cons_append, readExponent, dropSign, true_or, if_true, digits,
      Option.map_some, value]
    rfl

/-- A fraction gives its digits back, counted from the point. -/
theorem readUnsigned_fraction (ends : EndsNumber rest) (negative : Bool) (digits : Nat)
    (exponent : Int) :
    readUnsigned negative ('0' :: '.' :: (Numeral.ofNat digits ++ 'e' ::
        (Numeral.ofInt (exponent + (Numeral.ofNat digits).length) ++ rest))) =
      some (real (.finite { negative, digits, exponent }), rest) := by
  have word (text : Text) : Text.after? "Infinity".toList ('0' :: text) = none :=
    after?_eq_none_of_head infinity_head (by simp)
  have whole (text : Text) : readWhole ('0' :: '.' :: text) = some (['0'], '.' :: text) :=
    readWhole_ofNat (show (Numeral.ofNat 0).length ≤ Numeral.digitLimit by decide) (by simp)
  have fraction (text : Text) :
      readDigits (Numeral.ofNat digits ++ 'e' :: text) = some (Numeral.ofNat digits, 'e' :: text) :=
    readDigits_ofNat (by simp) digits
  have size : Nat.ofDigitChars 10 ('0' :: Numeral.ofNat digits) 0 = digits := by
    rw [Nat.ofDigitChars_cons]
    exact Nat.ofDigitChars_ten_toDigits
  simp only [readUnsigned, word, whole, readFraction, fraction, readExponent_ofInt ends,
    Option.bind_eq_bind, Option.bind_some, Option.map_some, Option.getD_some, List.cons_append,
    List.nil_append, size, Option.isNone_some, Bool.false_eq_true, and_self, if_false]
  rw [Int.add_sub_cancel]
  rfl

end Reading

end Json

end NextEdit
