import NextEdit.Octets
import NextEdit.Proofs.Text.Slices

/-! The bytes of a text. Decoding gives the text back and takes no other bytes; the boundaries of the
bytes are those of the text; and a slice of the bytes between two boundaries is the part of the text that
stands there. -/
namespace NextEdit

namespace Text

section Decoding

variable {value top : Nat} {bound : UInt8}

theorem toNat_ofNat (small : value < 256) : (UInt8.ofNat value).toNat = value :=
  Nat.mod_eq_of_lt small

/-- A byte stands below a bound as the number it was made of does. -/
theorem ofNat_lt_iff (small : value < 256) : UInt8.ofNat value < bound ↔ value < bound.toNat := by
  rw [UInt8.lt_iff_toNat_lt, toNat_ofNat small]

theorem ofNat_lt (small : value < 256) (below : value < bound.toNat) : UInt8.ofNat value < bound :=
  (ofNat_lt_iff small).mpr below

theorem not_ofNat_lt (small : value < 256) (above : bound.toNat ≤ value) :
    ¬ UInt8.ofNat value < bound :=
  fun below => Nat.not_lt.mpr above ((ofNat_lt_iff small).mp below)

theorem continuation?_ofNat (small : value < 64) :
    continuation? (UInt8.ofNat (value + 128)) = some value := by
  have size : (UInt8.ofNat (value + 128)).toNat = value + 128 := toNat_ofNat (by omega)
  have range : (0x80 : UInt8) ≤ UInt8.ofNat (value + 128) ∧ UInt8.ofNat (value + 128) < 0xC0 := by
    refine ⟨?_, ofNat_lt (by omega) (show value + 128 < 192 by omega)⟩
    rw [UInt8.le_iff_toNat_le, size]
    exact Nat.le_add_left 128 value
  rw [continuation?, if_pos range, size, Nat.add_sub_cancel]

theorem scalar?_toNat (char : Char) (enough : least ≤ char.toNat) :
    scalar? least char.toNat = some char := by
  rw [scalar?, if_pos ⟨enough, char.valid⟩, Char.ofNat_toNat]

theorem decode_one (small : value < 128) (rest : List UInt8) :
    decode (UInt8.ofNat value :: rest) = (decode rest).map (Char.ofNat value :: ·) := by
  have ascii : UInt8.ofNat value < 0x80 := ofNat_lt (by omega) small
  rw [decode.eq_def]
  simp only [if_pos ascii, toNat_ofNat (show value < 256 by omega)]

theorem decode_two (small : top < 32) (low : value < 64) (rest : List UInt8) :
    decode (UInt8.ofNat (top + 192) :: UInt8.ofNat (value + 128) :: rest) =
      (scalar? 0x80 (top * 64 + value)).bind fun char => (decode rest).map (char :: ·) := by
  have lead : (UInt8.ofNat (top + 192)).toNat = top + 192 := toNat_ofNat (by omega)
  have ascii : ¬ UInt8.ofNat (top + 192) < 0x80 := not_ofNat_lt (by omega) (show 128 ≤ top + 192 by omega)
  have stray : ¬ UInt8.ofNat (top + 192) < 0xC0 := not_ofNat_lt (by omega) (show 192 ≤ top + 192 by omega)
  have two : UInt8.ofNat (top + 192) < 0xE0 := ofNat_lt (by omega) (show top + 192 < 224 by omega)
  rw [decode.eq_def]
  simp only [if_neg ascii, if_neg stray, if_pos two, lead, continuation?_ofNat low,
    Option.bind_eq_bind, Option.bind_some, Nat.add_sub_cancel]

theorem decode_three (small : top < 16) (middleSmall : middle < 64) (low : value < 64)
    (rest : List UInt8) :
    decode (UInt8.ofNat (top + 224) :: UInt8.ofNat (middle + 128) :: UInt8.ofNat (value + 128) :: rest) =
      (scalar? 0x800 ((top * 64 + middle) * 64 + value)).bind fun char =>
        (decode rest).map (char :: ·) := by
  have lead : (UInt8.ofNat (top + 224)).toNat = top + 224 := toNat_ofNat (by omega)
  have past {bound : UInt8} (range : bound.toNat ≤ 224) : ¬ UInt8.ofNat (top + 224) < bound :=
    not_ofNat_lt (by omega) (by omega)
  have three : UInt8.ofNat (top + 224) < 0xF0 := ofNat_lt (by omega) (show top + 224 < 240 by omega)
  rw [decode.eq_def]
  simp only [if_neg (past (show (0x80 : UInt8).toNat ≤ 224 by decide)),
    if_neg (past (show (0xC0 : UInt8).toNat ≤ 224 by decide)),
    if_neg (past (show (0xE0 : UInt8).toNat ≤ 224 by decide)), if_pos three, lead,
    continuation?_ofNat middleSmall, continuation?_ofNat low, Option.bind_eq_bind,
    Option.bind_some, Nat.add_sub_cancel]

theorem decode_four (small : top < 8) (highSmall : high < 64) (middleSmall : middle < 64)
    (low : value < 64) (rest : List UInt8) :
    decode (UInt8.ofNat (top + 240) :: UInt8.ofNat (high + 128) :: UInt8.ofNat (middle + 128) ::
        UInt8.ofNat (value + 128) :: rest) =
      (scalar? 0x10000 (((top * 64 + high) * 64 + middle) * 64 + value)).bind fun char =>
        (decode rest).map (char :: ·) := by
  have lead : (UInt8.ofNat (top + 240)).toNat = top + 240 := toNat_ofNat (by omega)
  have past {bound : UInt8} (range : bound.toNat ≤ 240) : ¬ UInt8.ofNat (top + 240) < bound :=
    not_ofNat_lt (by omega) (by omega)
  rw [decode.eq_def]
  simp only [if_neg (past (show (0x80 : UInt8).toNat ≤ 240 by decide)),
    if_neg (past (show (0xC0 : UInt8).toNat ≤ 240 by decide)),
    if_neg (past (show (0xE0 : UInt8).toNat ≤ 240 by decide)),
    if_neg (past (show (0xF0 : UInt8).toNat ≤ 240 by decide)), lead,
    continuation?_ofNat highSmall, continuation?_ofNat middleSmall, continuation?_ofNat low,
    Option.bind_eq_bind, Option.bind_some, Nat.add_sub_cancel]

/-- A character is decoded from its bytes. -/
theorem decode_encodeChar (char : Char) (rest : List UInt8) :
    decode (String.utf8EncodeChar char ++ rest) = (decode rest).map (char :: ·) := by
  have valid : char.toNat < 0x110000 := by
    rcases char.valid with low | ⟨_, high⟩
    · exact Nat.lt_trans low (by decide)
    · exact high
  simp only [String.utf8EncodeChar, show char.val.toNat = char.toNat from rfl]
  split
  · rename_i one
    exact (decode_one (by omega) rest).trans (by rw [Char.ofNat_toNat])
  · split
    · rename_i two
      have code : char.toNat / 64 % 32 * 64 + char.toNat % 64 = char.toNat := by omega
      refine (decode_two (by omega) (by omega) rest).trans ?_
      rw [code, scalar?_toNat char (by omega), Option.bind_some]
    · split
      · rename_i three
        have code : (char.toNat / 4096 % 16 * 64 + char.toNat / 64 % 64) * 64 + char.toNat % 64 =
            char.toNat := by omega
        refine (decode_three (by omega) (by omega) (by omega) rest).trans ?_
        rw [code, scalar?_toNat char (by omega), Option.bind_some]
      · have code : ((char.toNat / 262144 % 8 * 64 + char.toNat / 4096 % 64) * 64 +
            char.toNat / 64 % 64) * 64 + char.toNat % 64 = char.toNat := by omega
        refine (decode_four (by omega) (by omega) (by omega) (by omega) rest).trans ?_
        rw [code, scalar?_toNat char (by omega), Option.bind_some]

theorem decode_of_encode (text : Text) : decode (encode text) = some text := by
  induction text with
  | nil => rfl
  | cons char text ih =>
    change decode (String.utf8EncodeChar char ++ encode text) = _
    rw [decode_encodeChar, ih]
    rfl

end Decoding

section Reading

variable {code least low middle high top : Nat} {byte : UInt8} {char : Char}

theorem toNat_ofNat_of_valid (valid : code.isValidChar) : (Char.ofNat code).toNat = code := by
  rw [Char.ofNat, dif_pos valid]
  rfl

theorem toNat_of_scalar? (found : scalar? least code = some char) :
    least ≤ code ∧ char.toNat = code := by
  unfold scalar? at found
  split at found
  · rename_i valid
    cases found
    exact ⟨valid.1, toNat_ofNat_of_valid valid.2⟩
  · cases found

theorem ofNat_sub_add (above : code ≤ byte.toNat) : UInt8.ofNat (byte.toNat - code + code) = byte := by
  rw [Nat.sub_add_cancel above, UInt8.ofNat_toNat]

theorem eq_of_continuation? (continues : continuation? byte = some low) :
    low < 64 ∧ UInt8.ofNat (low + 128) = byte := by
  unfold continuation? at continues
  split at continues
  · rename_i range
    have above : 128 ≤ byte.toNat := UInt8.le_iff_toNat_le.mp range.1
    have below : byte.toNat < 192 := UInt8.lt_iff_toNat_lt.mp range.2
    have size : byte.toNat - 128 = low := Option.some.inj continues
    rw [← size]
    exact ⟨by omega, ofNat_sub_add above⟩
  · cases continues

theorem encodeChar_one (small : byte < 0x80) :
    String.utf8EncodeChar (Char.ofNat byte.toNat) = [byte] := by
  have below : byte.toNat < 128 := UInt8.lt_iff_toNat_lt.mp small
  have size : (Char.ofNat byte.toNat).val.toNat = byte.toNat :=
    toNat_ofNat_of_valid (.inl (by omega))
  simp only [String.utf8EncodeChar, size, if_pos (Nat.le_of_lt_succ below), UInt8.ofNat_toNat]

theorem encodeChar_two (small : top < 32) (lowSmall : low < 64)
    (found : scalar? 0x80 (top * 64 + low) = some char) :
    String.utf8EncodeChar char = [UInt8.ofNat (top + 192), UInt8.ofNat (low + 128)] := by
  obtain ⟨least, size⟩ := toNat_of_scalar? found
  have upper : (top * 64 + low) / 64 % 32 = top := by omega
  have lower : (top * 64 + low) % 64 = low := by omega
  simp only [String.utf8EncodeChar, show char.val.toNat = char.toNat from rfl, size]
  rw [if_neg (by omega), if_pos (by omega), upper, lower]

theorem encodeChar_three (small : top < 16) (middleSmall : middle < 64) (lowSmall : low < 64)
    (found : scalar? 0x800 ((top * 64 + middle) * 64 + low) = some char) :
    String.utf8EncodeChar char =
      [UInt8.ofNat (top + 224), UInt8.ofNat (middle + 128), UInt8.ofNat (low + 128)] := by
  obtain ⟨least, size⟩ := toNat_of_scalar? found
  have upper : ((top * 64 + middle) * 64 + low) / 4096 % 16 = top := by omega
  have inner : ((top * 64 + middle) * 64 + low) / 64 % 64 = middle := by omega
  have lower : ((top * 64 + middle) * 64 + low) % 64 = low := by omega
  simp only [String.utf8EncodeChar, show char.val.toNat = char.toNat from rfl, size]
  rw [if_neg (by omega), if_neg (by omega), if_pos (by omega), upper, inner, lower]

theorem encodeChar_four (highSmall : high < 64) (middleSmall : middle < 64) (lowSmall : low < 64)
    (found : scalar? 0x10000 (((top * 64 + high) * 64 + middle) * 64 + low) = some char) :
    String.utf8EncodeChar char =
      [UInt8.ofNat (top + 240), UInt8.ofNat (high + 128), UInt8.ofNat (middle + 128),
        UInt8.ofNat (low + 128)] := by
  obtain ⟨least, size⟩ := toNat_of_scalar? found
  have last : char.toNat < 0x110000 := by
    rcases char.valid with low | ⟨_, high⟩
    · exact Nat.lt_trans low (by decide)
    · exact high
  have upper : (((top * 64 + high) * 64 + middle) * 64 + low) / 262144 % 8 = top := by omega
  have outer : (((top * 64 + high) * 64 + middle) * 64 + low) / 4096 % 64 = high := by omega
  have inner : (((top * 64 + high) * 64 + middle) * 64 + low) / 64 % 64 = middle := by omega
  have lower : (((top * 64 + high) * 64 + middle) * 64 + low) % 64 = low := by omega
  simp only [String.utf8EncodeChar, show char.val.toNat = char.toNat from rfl, size]
  rw [if_neg (by omega), if_neg (by omega), if_neg (by omega), upper, outer, inner, lower]

/-- The text that is decoded is written in the bytes that were read. -/
theorem encode_of_decode {data : List UInt8} {text : Text} (decodes : decode data = some text) :
    encode text = data := by
  fun_induction decode data generalizing text with
  | case1 =>
    cases decodes
    rfl
  | case2 first rest small ih =>
    obtain ⟨later, reads, rfl⟩ := Option.map_eq_some_iff.mp decodes
    change String.utf8EncodeChar _ ++ encode later = _
    rw [encodeChar_one small, ih reads, List.singleton_append]
  | case4 first _ lead small second rest ih =>
    simp only [Option.bind_eq_bind, Option.bind_eq_some_iff, Option.map_eq_some_iff] at decodes
    obtain ⟨low, last, char, found, later, reads, rfl⟩ := decodes
    obtain ⟨lowSmall, rfl⟩ := eq_of_continuation? last
    have below : first.toNat < 224 := UInt8.lt_iff_toNat_lt.mp small
    have above : 192 ≤ first.toNat := UInt8.le_iff_toNat_le.mp (UInt8.not_lt.mp lead)
    change String.utf8EncodeChar _ ++ encode later = _
    rw [encodeChar_two (by omega) lowSmall found, ih reads, ofNat_sub_add above]
    rfl
  | case6 first _ _ lead small second third rest ih =>
    simp only [Option.bind_eq_bind, Option.bind_eq_some_iff, Option.map_eq_some_iff] at decodes
    obtain ⟨middle, between, low, last, char, found, later, reads, rfl⟩ := decodes
    obtain ⟨middleSmall, rfl⟩ := eq_of_continuation? between
    obtain ⟨lowSmall, rfl⟩ := eq_of_continuation? last
    have below : first.toNat < 240 := UInt8.lt_iff_toNat_lt.mp small
    have above : 224 ≤ first.toNat := UInt8.le_iff_toNat_le.mp (UInt8.not_lt.mp lead)
    change String.utf8EncodeChar _ ++ encode later = _
    rw [encodeChar_three (by omega) middleSmall lowSmall found, ih reads, ofNat_sub_add above]
    rfl
  | case8 first _ _ _ lead second third fourth rest ih =>
    simp only [Option.bind_eq_bind, Option.bind_eq_some_iff, Option.map_eq_some_iff] at decodes
    obtain ⟨high, behind, middle, between, low, last, char, found, later, reads, rfl⟩ := decodes
    obtain ⟨highSmall, rfl⟩ := eq_of_continuation? behind
    obtain ⟨middleSmall, rfl⟩ := eq_of_continuation? between
    obtain ⟨lowSmall, rfl⟩ := eq_of_continuation? last
    have above : 240 ≤ first.toNat := UInt8.le_iff_toNat_le.mp (UInt8.not_lt.mp lead)
    change String.utf8EncodeChar _ ++ encode later = _
    rw [encodeChar_four highSmall middleSmall lowSmall found, ih reads, ofNat_sub_add above]
    rfl
  -- A byte in the middle of a character leads none, and neither does one that the data breaks off at.
  | case3 | case5 | case7 | case9 => cases decodes

/-- Decoding takes the bytes of texts and no others. -/
theorem decode_eq_some_iff {data : List UInt8} {text : Text} :
    decode data = some text ↔ encode text = data := by
  constructor
  · exact encode_of_decode
  · rintro rfl
    exact decode_of_encode text

end Reading

theorem isBoundary_cons (char : Char) (rest : Text) (offset : Nat) :
    isBoundary (char :: rest) offset =
      if char.utf8Size ≤ offset then isBoundary rest (offset - char.utf8Size) else offset == 0 := by
  rw [isBoundary, takeBytes]
  split
  · rw [isBoundary, byteCount_cons, Bool.eq_iff_iff, beq_iff_eq, beq_iff_eq]
    omega
  · rw [byteCount_nil, Bool.eq_iff_iff, beq_iff_eq, beq_iff_eq]
    exact eq_comm

end Text

namespace Octets

section Boundaries

theorem isContinuation_iff {byte : UInt8} :
    isContinuation byte = true ↔ 128 ≤ byte.toNat ∧ byte.toNat < 192 := by
  rw [isContinuation, Bool.and_eq_true, decide_eq_true_eq, decide_eq_true_eq,
    UInt8.le_iff_toNat_le, UInt8.lt_iff_toNat_lt]
  exact Iff.rfl

theorem isContinuation_ofNat (small : value < 64) :
    isContinuation (UInt8.ofNat (value + 128)) = true := by
  rw [isContinuation_iff, Text.toNat_ofNat (by omega)]
  omega

theorem not_isContinuation_ofNat (small : value < 256) (other : value < 128 ∨ 192 ≤ value) :
    isContinuation (UInt8.ofNat value) = false := by
  rw [← Bool.not_eq_true, isContinuation_iff, Text.toNat_ofNat small]
  omega

/-- Only the first byte of a character is no continuation. -/
theorem exists_lead_of_encodeChar (char : Char) : ∃ lead tail,
    String.utf8EncodeChar char = lead :: tail ∧ isContinuation lead = false ∧
      ∀ byte ∈ tail, isContinuation byte = true := by
  have continues (value : Nat) : isContinuation (UInt8.ofNat (value % 64 + 128)) = true :=
    isContinuation_ofNat (Nat.mod_lt _ (by decide))
  simp only [String.utf8EncodeChar]
  split
  · exact ⟨_, _, rfl, not_isContinuation_ofNat (by omega) (by omega), List.forall_mem_nil _⟩
  · split
    · refine ⟨_, _, rfl, not_isContinuation_ofNat (by omega) (by omega), ?_⟩
      exact List.forall_mem_singleton.mpr (continues _)
    · split
      · refine ⟨_, _, rfl, not_isContinuation_ofNat (by omega) (by omega), ?_⟩
        exact List.forall_mem_cons.mpr ⟨continues _, List.forall_mem_singleton.mpr (continues _)⟩
      · refine ⟨_, _, rfl, not_isContinuation_ofNat (by omega) (by omega), ?_⟩
        exact List.forall_mem_cons.mpr ⟨continues _,
          List.forall_mem_cons.mpr ⟨continues _, List.forall_mem_singleton.mpr (continues _)⟩⟩

/-- The boundaries of a text as its bytes show them. -/
def startsCharacter (data : Octets) (offset : Nat) : Bool :=
  match data[offset]? with
  | some byte => !isContinuation byte
  | none => offset == data.length

theorem startsCharacter_encode (text : Text) (offset : Nat) :
    startsCharacter (Text.encode text) offset = text.isBoundary offset := by
  induction text generalizing offset with
  | nil => cases offset <;> rfl
  | cons char rest ih =>
    obtain ⟨lead, tail, parts, leads, continues⟩ := exists_lead_of_encodeChar char
    have size : (lead :: tail).length = char.utf8Size := parts ▸ String.length_utf8EncodeChar char
    have bytes : Text.encode (char :: rest) = lead :: tail ++ Text.encode rest := by
      rw [← parts]
      rfl
    rw [Text.isBoundary_cons, bytes]
    by_cases inside : char.utf8Size ≤ offset
    · rw [if_pos inside, ← ih, startsCharacter, startsCharacter,
        List.getElem?_append_right (by omega), size]
      cases (Text.encode rest)[offset - char.utf8Size]? with
      | some byte => rfl
      | none =>
        rw [List.length_append, size, Bool.eq_iff_iff, beq_iff_eq, beq_iff_eq]
        omega
    · rw [if_neg inside, startsCharacter]
      cases offset with
      | zero =>
        simp [leads]
      | succ offset =>
        have found : (lead :: tail ++ Text.encode rest)[offset + 1]? = tail[offset]? := by
          rw [List.getElem?_append_left (by omega), List.getElem?_cons_succ]
        have within : offset < tail.length := by
          rw [List.length_cons] at size
          omega
        rw [found, List.getElem?_eq_getElem within]
        simp [continues _ (List.getElem_mem within)]

/-- The bytes of a text have the boundaries of the text. -/
theorem isBoundary_encode (text : Text) (offset : Nat) :
    isBoundary (Text.encode text) offset = text.isBoundary offset := by
  unfold isBoundary
  split
  · rename_i edge
    rw [Text.length_encode] at edge
    rcases edge with start | stop
    · rw [Int.natCast_eq_zero.mp start]
      exact (Text.isBoundary_byteCount [] text).symm
    · have whole := Text.isBoundary_byteCount text []
      rw [List.append_nil, ← Int.ofNat.inj stop] at whole
      exact whole.symm
  · rename_i inner
    have notEnd : offset ≠ (Text.encode text).length :=
      fun stop => inner (.inr (congrArg Int.ofNat stop))
    rw [if_neg (Int.not_lt.mpr (Int.natCast_nonneg offset)), ← startsCharacter_encode,
      startsCharacter, Int.toNat_natCast]
    cases (Text.encode text)[offset]? with
    | some byte => rfl
    | none => exact (beq_eq_false_iff_ne.mpr notEnd).symm

end Boundaries

section Slices

theorem checkSlice_encode (text subject : Text) (start stop : Int) :
    checkSlice (Text.encode text) subject start stop =
      checkBounds text.byteCount text.isBoundary subject start stop := by
  have boundaries : (fun offset : Nat => isBoundary (Text.encode text) offset) = text.isBoundary :=
    funext (isBoundary_encode text)
  rw [checkSlice, Text.length_encode, boundaries]

theorem slice_append (front middle back subject : Text) :
    slice (Text.encode (front ++ (middle ++ back))) subject front.byteCount
      (front.byteCount + middle.byteCount : Nat) = .ok middle := by
  have atStart := Text.isBoundary_byteCount front (middle ++ back)
  have atStop := Text.isBoundary_byteCount (front ++ middle) back
  rw [Text.byteCount_append, List.append_assoc] at atStop
  have textFits : Text.checkSpan (front ++ (middle ++ back)) subject
      { start := front.byteCount, stop := front.byteCount + middle.byteCount } = .ok () :=
    Text.checkSpan_eq_ok_iff.mpr ⟨atStart, atStop⟩
  have fits : checkSlice (Text.encode (front ++ (middle ++ back))) subject front.byteCount
      (front.byteCount + middle.byteCount : Nat) = .ok () :=
    (checkSlice_encode _ subject _ _).trans textFits
  rw [slice, fits]
  simp only [Int.toNat_natCast, Nat.add_sub_cancel_left, Text.take_drop_encode,
    Text.decode_of_encode]

end Slices

end Octets

end NextEdit
