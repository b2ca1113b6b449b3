import NextEdit.Proofs.Text.Octets
import NextEdit.Text.Stray

/-! Bytes that are not UTF-8 are read without loss: the texts and the stray bytes between them are written
as the bytes that were read. There are stray bytes exactly where the data is no text. -/
namespace NextEdit.Loose

/-- All that is kept, as bytes. -/
def encode (loose : Loose) : Octets :=
  loose.lead ++ Text.encode loose.last

variable {data : Octets}

theorem encode_push (char : Char) (loose : Loose) :
    (loose.push char).encode = String.utf8EncodeChar char ++ loose.encode := by
  obtain ⟨broken, last⟩ := loose
  cases broken with
  | nil => rfl
  | cons stray rest => simp [push, encode, lead, Text.encode]

/-- The character in front has the bytes in front. -/
theorem eq_append_of_leading? (found : leading? data = some (char, more)) :
    data = String.utf8EncodeChar char ++ data.drop (more + 1) := by
  obtain ⟨count, _, found⟩ := List.exists_of_findSome?_eq_some found
  split at found
  · rename_i other decodes
    cases found
    have bytes := Text.encode_of_decode decodes
    rw [Text.encode, List.flatMap_singleton] at bytes
    rw [bytes, List.take_append_drop]
  · cases found

theorem encode_decodeFrom (skip : Nat) (data : Octets) :
    (decodeFrom skip data).encode = data.drop skip := by
  fun_induction decodeFrom skip data with
  | case1 skip => exact List.drop_nil.symm
  | case2 skip byte rest ih => exact ih
  | case3 byte rest char more found ih =>
    rw [encode_push, ih]
    exact (eq_append_of_leading? found).symm
  | case4 byte rest _ loose ih =>
    change [] ++ byte :: loose.encode = byte :: rest
    rw [ih]
    rfl

/-- What was read is written again. -/
theorem encode_decode (data : Octets) : (decode data).encode = data :=
  encode_decodeFrom 0 data

/-- A character is found in front of the bytes of any text. -/
theorem exists_leading?_encode (char : Char) (text : Text) :
    ∃ more, leading? (Text.encode (char :: text)) = some (char, more) := by
  have bytes : Text.encode (char :: text) = String.utf8EncodeChar char ++ Text.encode text := rfl
  cases found : leading? (Text.encode (char :: text)) with
  | none =>
    have positive := Char.utf8Size_pos char
    have small := Char.utf8Size_le_four char
    have length : (String.utf8EncodeChar char).length = char.utf8Size - 1 + 1 := by
      rw [String.length_utf8EncodeChar]
      omega
    have alone : Text.decode (String.utf8EncodeChar char) = some [char] := by
      rw [← List.append_nil (String.utf8EncodeChar char), Text.decode_encodeChar]
      rfl
    have listed : char.utf8Size - 1 ∈ [0, 1, 2, 3] := by
      simp only [List.mem_cons, List.not_mem_nil, or_false]
      omega
    have absent := List.findSome?_eq_none_iff.mp found _ listed
    rw [bytes, ← length, List.take_left, alone] at absent
    cases absent
  | some leading =>
    obtain ⟨other, more⟩ := leading
    -- Whatever is found in front is what decoding finds there.
    have decodes := Text.decode_of_encode (char :: text)
    rw [eq_append_of_leading? found, Text.decode_encodeChar] at decodes
    obtain ⟨_, _, same⟩ := Option.map_eq_some_iff.mp decodes
    obtain ⟨rfl, _⟩ := List.cons.inj same
    exact ⟨more, rfl⟩

theorem decodeFrom_eq (skip : Nat) (data : Octets) :
    decodeFrom skip data = decodeFrom 0 (data.drop skip) := by
  induction skip generalizing data with
  | zero => rfl
  | succ skip ih =>
    cases data with
    | nil => rfl
    | cons byte rest => exact ih rest

theorem decode_of_encode (text : Text) : decode (Text.encode text) = { broken := [], last := text } := by
  induction text with
  | nil => rfl
  | cons char text ih =>
    obtain ⟨more, found⟩ := exists_leading?_encode char text
    have behind : (Text.encode (char :: text)).drop (more + 1) = Text.encode text :=
      (List.append_cancel_left (eq_append_of_leading? found)).symm
    cases whole : Text.encode (char :: text) with
    | nil =>
      rw [whole] at found
      cases found
    | cons byte rest =>
      rw [whole] at found behind
      rw [decode, decodeFrom, found]
      change (decodeFrom more rest).push char = _
      rw [decodeFrom_eq]
      exact congrArg (push char) ((congrArg decode behind).trans ih)

/-- Bytes without a stray one are a text. -/
theorem broken_eq_nil_iff : (decode data).broken = [] ↔ ∃ text, Text.decode data = some text := by
  constructor
  · intro whole
    refine ⟨(decode data).last, Text.decode_eq_some_iff.mpr ?_⟩
    have same := encode_decode data
    rwa [encode, lead, whole, List.flatMap_nil, List.nil_append] at same
  · rintro ⟨text, decodes⟩
    rw [← Text.encode_of_decode decodes, decode_of_encode]

end NextEdit.Loose
