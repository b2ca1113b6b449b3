import NextEdit.Text.Basic

/-! The UTF-8 form of a text, as a list of bytes. `decode` is strict: it refuses stray and missing
continuation bytes, overlong forms, surrogates and codes past U+10FFFF. -/
namespace NextEdit.Text

def encode (text : Text) : List UInt8 :=
  text.flatMap String.utf8EncodeChar

/-- The six bits that a continuation byte carries. -/
def continuation? (byte : UInt8) : Option Nat :=
  if 0x80 ≤ byte ∧ byte < 0xC0 then some (byte.toNat - 0x80) else none

/-- The character of a code that needs at least the number of bytes it was written in. -/
def scalar? (least code : Nat) : Option Char :=
  if least ≤ code ∧ code.isValidChar then some (Char.ofNat code) else none

def decode : List UInt8 → Option Text
  | [] => some []
  | first :: rest =>
    if first < 0x80 then (decode rest).map (Char.ofNat first.toNat :: ·)
    else if first < 0xC0 then none
    else if first < 0xE0 then
      match rest with
      | second :: rest => do
        let low ← continuation? second
        let char ← scalar? 0x80 ((first.toNat - 0xC0) * 64 + low)
        (decode rest).map (char :: ·)
      | _ => none
    else if first < 0xF0 then
      match rest with
      | second :: third :: rest => do
        let middle ← continuation? second
        let low ← continuation? third
        let char ← scalar? 0x800 (((first.toNat - 0xE0) * 64 + middle) * 64 + low)
        (decode rest).map (char :: ·)
      | _ => none
    else
      match rest with
      | second :: third :: fourth :: rest => do
        let high ← continuation? second
        let middle ← continuation? third
        let low ← continuation? fourth
        let char ← scalar? 0x10000
          ((((first.toNat - 0xF0) * 64 + high) * 64 + middle) * 64 + low)
        (decode rest).map (char :: ·)
      | _ => none

end NextEdit.Text
