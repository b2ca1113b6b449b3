import NextEdit.Json.Reader
import NextEdit.Json.Writer

/-! Quoted texts are read back as they were written. Both ways of escaping give a reader each character
by itself, so the reader follows the text character by character. -/
namespace NextEdit.Json

/-- Escaping that the reader takes back, one character at a time. -/
def Unescapes (escape : Char → Text) : Prop :=
  ∀ char rest, readString (escape char ++ rest) = prepend char (readString rest)

theorem readString_flatMap (unescapes : Unescapes escape) (text rest : Text) :
    readString (text.flatMap escape ++ '"' :: rest) = some (text, rest) := by
  induction text with
  | nil => rfl
  | cons char text ih =>
    rw [List.flatMap_cons, List.append_assoc, unescapes, ih]
    rfl

section Escapes

variable {char : Char}

theorem hexValue?_hexDigit (small : value < 16) : hexValue? (hexDigit value) = some value := by
  have table : ∀ value < 16, hexValue? (hexDigit value) = some value := by
    decide
  exact table value small

theorem unit?_hexDigits (small : unit < 0x10000) :
    unit? (hexDigit (unit / 4096 % 16)) (hexDigit (unit / 256 % 16)) (hexDigit (unit / 16 % 16))
      (hexDigit (unit % 16)) = some unit := by
  have digit (place : Nat) := hexValue?_hexDigit (Nat.mod_lt place (by decide : 16 > 0))
  simp only [unit?, digit, Option.bind_eq_bind, Option.bind_some, Option.pure_def,
    Option.some.injEq]
  omega

/-- A unit outside the surrogates is a character. -/
theorem readString_unitEscape (small : unit < 0x10000) (scalar : unit < 0xD800 ∨ 0xE000 ≤ unit)
    (rest : Text) :
    readString (unitEscape unit ++ rest) = prepend (Char.ofNat unit) (readString rest) := by
  simp only [unitEscape, List.cons_append, List.nil_append, readString, unit?_hexDigits small,
    if_pos scalar]

/-- A high and a low surrogate are one character past U+FFFF. -/
theorem readString_surrogates (isHigh : 0xD800 ≤ high ∧ high < 0xDC00)
    (isLow : 0xDC00 ≤ low ∧ low < 0xE000) (rest : Text) :
    readString (unitEscape high ++ (unitEscape low ++ rest)) =
      prepend (Char.ofNat (0x10000 + (high - 0xD800) * 0x400 + (low - 0xDC00)))
        (readString rest) := by
  have highUnit : unit? _ _ _ _ = some high := unit?_hexDigits (by omega)
  have lowUnit : unit? _ _ _ _ = some low := unit?_hexDigits (by omega)
  have surrogate : ¬ (high < 0xD800 ∨ 0xE000 ≤ high) := by
    omega
  simp only [unitEscape, List.cons_append, List.nil_append]
  rw [readString, highUnit]
  simp only [if_neg surrogate, if_neg (Nat.not_le.mpr isHigh.2), lowUnit, Option.bind_some, pair?,
    if_pos isLow]

theorem readString_raw (plain : 0x20 ≤ char.toNat) (quote : char ≠ '"') (slash : char ≠ '\\')
    (rest : Text) : readString (char :: rest) = prepend char (readString rest) := by
  rw [readString]
  · exact if_neg (not_or.mpr ⟨Nat.not_lt.mpr plain, slash⟩)
  · exact quote
  · intro _ _ _ _ _ escapes
    exact absurd escapes slash
  · intro _ _ escapes
    exact absurd escapes slash

theorem readString_short (short : shortEscape? char = some escape) (rest : Text) :
    readString (escape ++ rest) = prepend char (readString rest) := by
  have same {code : Nat} (is : char.toNat = code) : Char.ofNat code = char := by
    rw [← is, Char.ofNat_toNat]
  unfold shortEscape? at short
  split at short <;> cases short <;> rename_i is <;> rw [← same is] <;> rfl

theorem ne_of_shortEscape?_eq_none (long : shortEscape? char = none) : char ≠ '"' ∧ char ≠ '\\' := by
  constructor <;> rintro rfl <;> cases long

theorem isScalar (char : Char) :
    char.toNat < 0xD800 ∨ 0xE000 ≤ char.toNat ∧ char.toNat < 0x110000 := by
  rcases char.valid with low | ⟨high, bound⟩
  · exact .inl low
  · exact .inr ⟨high, bound⟩

theorem unescapes_escapeControl : Unescapes escapeControl := by
  intro char rest
  unfold escapeControl
  split
  · rename_i short
    exact readString_short short rest
  · rename_i long
    split
    · have unit := readString_unitEscape (show char.toNat < 0x10000 by omega) (by omega) rest
      rwa [Char.ofNat_toNat] at unit
    · obtain ⟨quote, slash⟩ := ne_of_shortEscape?_eq_none long
      exact readString_raw (by omega) quote slash rest

theorem unescapes_escapeAscii : Unescapes escapeAscii := by
  intro char rest
  have scalar := isScalar char
  unfold escapeAscii
  split
  · rename_i short
    exact readString_short short rest
  · rename_i long
    simp only
    split
    · obtain ⟨quote, slash⟩ := ne_of_shortEscape?_eq_none long
      exact readString_raw (by omega) quote slash rest
    · split
      · have unit := readString_unitEscape (show char.toNat < 0x10000 by omega) (by omega) rest
        rwa [Char.ofNat_toNat] at unit
      · have high : 0xD800 ≤ 0xD800 + (char.toNat - 0x10000) / 0x400 ∧
            0xD800 + (char.toNat - 0x10000) / 0x400 < 0xDC00 := by
          omega
        have low : 0xDC00 ≤ 0xDC00 + (char.toNat - 0x10000) % 0x400 ∧
            0xDC00 + (char.toNat - 0x10000) % 0x400 < 0xE000 := by
          omega
        have pair := readString_surrogates high low rest
        have code : 0x10000 + (0xD800 + (char.toNat - 0x10000) / 0x400 - 0xD800) * 0x400 +
            (0xDC00 + (char.toNat - 0x10000) % 0x400 - 0xDC00) = char.toNat := by
          omega
        rw [code, Char.ofNat_toNat] at pair
        rw [List.append_assoc]
        exact pair

end Escapes

end NextEdit.Json
