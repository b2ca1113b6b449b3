import NextEdit.Text.Basic

/-! Blank characters. `isBlank` is the Unicode property White_Space; `isPadding` adds the four
information separators, which trimming removes and numerals refuse. -/
namespace NextEdit.Text

def isBlank (char : Char) : Bool :=
  let code := char.toNat
  (9 ≤ code && code ≤ 13) || code == 0x20 || code == 0x85 || code == 0xA0 || code == 0x1680 ||
    (0x2000 ≤ code && code ≤ 0x200A) || code == 0x2028 || code == 0x2029 || code == 0x202F ||
    code == 0x205F || code == 0x3000

def isPadding (char : Char) : Bool :=
  isBlank char || (0x1C ≤ char.toNat && char.toNat ≤ 0x1F)

/-- The text without the characters of one class at its two ends. -/
def trim (among : Char → Bool) (text : Text) : Text :=
  ((text.dropWhile among).reverse.dropWhile among).reverse

end NextEdit.Text
