import NextEdit.Text.Basic

/-! Letter case, for comparing with ASCII words. -/
namespace NextEdit.Text

/-- Lowercase wherever the lowercase form is ASCII: the letters A to Z and the Kelvin sign.
Any other character differs from every ASCII letter in both forms and stays as it is. -/
def lowerChar (char : Char) : Char :=
  if 'A' ≤ char ∧ char ≤ 'Z' then Char.ofNat (char.toNat + 32)
  else if char.toNat = 0x212A then 'k'
  else char

def lower (text : Text) : Text :=
  text.map lowerChar

/-- The words that switch something on, in any case. -/
def isAffirmative (text : Text) : Bool :=
  ["1".toList, "true".toList, "yes".toList].contains (lower text)

end NextEdit.Text
