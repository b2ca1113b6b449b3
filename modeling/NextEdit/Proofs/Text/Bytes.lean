import NextEdit.Octets.Search
import NextEdit.Proofs.Text.Lines
import NextEdit.Proofs.Text.Offsets
import NextEdit.Proofs.Text.Scan

/-! Markers searched for in the bytes of a text. The first byte of a marker continues no character, so
the bytes of the marker stand only where the marker itself does: over bytes, searching and erasing find
what they find over characters, at offsets between characters. -/
namespace NextEdit

namespace Octets

/-- No occurrence of the marker starts in `front`, where `rest` stands behind it. -/
def Passes (marker front rest : Octets) : Prop :=
  ∀ byte tail, byte :: tail <:+ front → ¬ marker <+: byte :: (tail ++ rest)

variable {marker front rest : Octets}

theorem Passes.cons (passes : Passes marker (byte :: front) rest) :
    ¬ marker <+: byte :: (front ++ rest) ∧ Passes marker front rest :=
  ⟨passes byte front List.suffix_rfl, fun other tail stands =>
    passes other tail (stands.trans (List.suffix_cons byte front))⟩

theorem find?_of_isPrefix (here : marker <+: data) : find? marker data = some 0 := by
  cases data with
  | nil => rw [List.prefix_nil.mp here]; rfl
  | cons byte rest => rw [find?, if_pos (List.isPrefixOf_iff_prefix.mpr here)]

theorem find?_passes (passes : Passes marker front rest) :
    find? marker (front ++ rest) = (find? marker rest).map (· + front.length) := by
  induction front with
  | nil => exact Option.map_id'.symm
  | cons byte front ih =>
    obtain ⟨absent, later⟩ := passes.cons
    rw [List.cons_append, find?, if_neg (mt List.isPrefixOf_iff_prefix.mp absent), ih later,
      Option.map_map]
    rfl

theorem eraseAll_passes (passes : Passes marker front rest) :
    eraseAll marker (front ++ rest) = front ++ eraseAll marker rest := by
  induction front with
  | nil => rfl
  | cons byte front ih =>
    obtain ⟨absent, later⟩ := passes.cons
    rw [List.cons_append, eraseAll, eraseFrom, if_neg (mt List.isPrefixOf_iff_prefix.mp absent)]
    exact congrArg (byte :: ·) (ih later)

theorem eraseFrom_eq (marker : Octets) (skip : Nat) (data : Octets) :
    eraseFrom marker skip data = eraseAll marker (data.drop skip) := by
  induction data generalizing skip with
  | nil => cases skip <;> rfl
  | cons byte rest ih =>
    cases skip with
    | zero => rfl
    | succ skip => exact ih skip

theorem eraseAll_hit (full : marker ≠ []) (rest : Octets) :
    eraseAll marker (marker ++ rest) = eraseAll marker rest := by
  obtain ⟨byte, others, rfl⟩ := List.exists_cons_of_ne_nil full
  have here : (byte :: others).isPrefixOf (byte :: (others ++ rest)) = true :=
    List.isPrefixOf_iff_prefix.mpr ⟨rest, rfl⟩
  rw [List.cons_append, eraseAll, eraseFrom, if_pos here, eraseFrom_eq, List.length_cons,
    Nat.add_sub_cancel, List.drop_left]

end Octets

namespace Text

variable {marker text : Text}

theorem decode_encode_append (text : Text) (rest : Octets) :
    decode (encode text ++ rest) = (decode rest).map (text ++ ·) := by
  induction text with
  | nil => exact Option.map_id'.symm
  | cons char text ih =>
    have bytes : encode (char :: text) ++ rest =
        String.utf8EncodeChar char ++ (encode text ++ rest) := List.append_assoc _ _ _
    rw [bytes, decode_encodeChar, ih, Option.map_map]
    rfl

/-- A text starts with a marker where its bytes start with those of the marker. -/
theorem encode_isPrefix_iff : encode marker <+: encode text ↔ marker <+: text := by
  constructor
  · rintro ⟨rest, same⟩
    have whole := decode_of_encode text
    rw [← same, decode_encode_append] at whole
    obtain ⟨back, _, parts⟩ := Option.map_eq_some_iff.mp whole
    exact ⟨back, parts⟩
  · rintro ⟨back, rfl⟩
    rw [encode_append]
    exact List.prefix_append _ _

theorem encode_ne_nil (full : text ≠ []) : encode text ≠ [] := by
  rw [← List.length_pos_iff, length_encode]
  exact byteCount_pos full

theorem not_isPrefix_of_continuation (full : marker ≠ []) (continues : Octets.isContinuation byte = true)
    (rest : Octets) : ¬ encode marker <+: byte :: rest := by
  intro found
  obtain ⟨char, others, rfl⟩ := List.exists_cons_of_ne_nil full
  obtain ⟨lead, tail, parts, leads, _⟩ := Octets.exists_lead_of_encodeChar char
  have bytes : encode (char :: others) = lead :: (tail ++ encode others) :=
    congrArg (· ++ encode others) parts
  rw [bytes] at found
  obtain ⟨rfl, _⟩ := List.cons_prefix_cons.mp found
  rw [leads] at continues
  cases continues

/-- A character that no marker starts with is passed over byte by byte. -/
theorem passes_encodeChar (full : marker ≠ []) (absent : ¬ marker <+: char :: text) :
    Octets.Passes (encode marker) (String.utf8EncodeChar char) (encode text) := by
  obtain ⟨lead, tail, parts, _, continues⟩ := Octets.exists_lead_of_encodeChar char
  intro byte others stands
  rw [parts] at stands
  rcases List.suffix_cons_iff.mp stands with whole | later
  · have bytes : encode (char :: text) = String.utf8EncodeChar char ++ encode text := rfl
    rw [← List.cons_append, whole, ← parts, ← bytes, encode_isPrefix_iff]
    exact absent
  -- Inside the character stand continuation bytes, and a marker starts with none of them.
  · exact not_isPrefix_of_continuation full (continues byte (later.subset List.mem_cons_self)) _

theorem find?_of_isPrefix (here : marker <+: text) : find? marker text = some 0 := by
  obtain ⟨rest, parts⟩ := here
  cases text with
  | nil =>
    rw [(List.append_eq_nil_iff.mp parts).1]
    rfl
  | cons char text => rw [find?, splitFirst?, after?_eq_some_iff.mpr parts.symm]; rfl

theorem find?_cons (absent : ¬ marker <+: char :: text) :
    find? marker (char :: text) = (find? marker text).map (· + char.utf8Size) := by
  rw [find?, find?, splitFirst?, after?_eq_none absent]
  cases splitFirst? marker text with
  | none => rfl
  | some parts => exact congrArg some (Nat.add_comm _ _)

theorem find?_encode (full : marker ≠ []) (text : Text) :
    Octets.find? (encode marker) (encode text) = find? marker text := by
  induction text with
  | nil =>
    have empty : encode [] = [] := rfl
    have bytesFull : (encode marker).isEmpty = false :=
      List.isEmpty_eq_false_iff.mpr (encode_ne_nil full)
    rw [empty, Octets.find?, bytesFull, find?, splitFirst?, List.isEmpty_eq_false_iff.mpr full]
    rfl
  | cons char rest ih =>
    by_cases here : marker <+: char :: rest
    · rw [Octets.find?_of_isPrefix (encode_isPrefix_iff.mpr here), find?_of_isPrefix here]
    · have bytes : encode (char :: rest) = String.utf8EncodeChar char ++ encode rest := rfl
      rw [bytes, Octets.find?_passes (passes_encodeChar full here), ih, find?_cons here,
        String.length_utf8EncodeChar]

theorem eraseAll_encode (full : marker ≠ []) (text : Text) :
    Octets.eraseAll (encode marker) (encode text) = encode (eraseAll marker text) := by
  induction text using scanInduction full with
  | nil => rfl
  | hit rest ih =>
    rw [encode_append, Octets.eraseAll_hit (encode_ne_nil full), ih, eraseAll_hit full]
  | miss char rest absent ih =>
    have bytes : encode (char :: rest) = String.utf8EncodeChar char ++ encode rest := rfl
    rw [bytes, Octets.eraseAll_passes (passes_encodeChar full absent), ih, eraseAll_miss absent]
    rfl

/-- Behind the bytes of a text stands the first byte of what follows it. -/
theorem getElem?_encode_append (front back : Text) :
    (encode (front ++ back))[front.byteCount]? = (encode back).head? := by
  rw [encode_append, ← length_encode, List.getElem?_append_right (Nat.le_refl _), Nat.sub_self,
    List.head?_eq_getElem?]

/-- In front of the end of a text stands its last byte. -/
theorem getElem?_encode_append_pred (front back : Text) (full : 0 < front.byteCount) :
    (encode (front ++ back))[front.byteCount - 1]? = (encode front).getLast? := by
  rw [← length_encode] at full
  rw [encode_append, ← length_encode, List.getElem?_append_left (by omega), List.getLast?_eq_getElem?]

section Newline

/-- Only a newline has the byte of a newline. -/
theorem newline_mem_encodeChar_iff : 10 ∈ String.utf8EncodeChar char ↔ char = '\n' := by
  constructor
  · intro member
    obtain ⟨lead, tail, parts, _, continues⟩ := Octets.exists_lead_of_encodeChar char
    rw [parts] at member
    rcases List.mem_cons.mp member with rfl | inTail
    · have bytes : encode [char] = 10 :: tail := (List.append_nil _).trans parts
      have starts : encode ['\n'] <+: encode [char] := bytes ▸ List.prefix_append [10] tail
      exact (List.cons_prefix_cons.mp (encode_isPrefix_iff.mp starts)).1.symm
    · exact absurd (continues 10 inTail) (by decide)
  · rintro rfl
    exact List.mem_singleton_self 10

theorem head?_encode_eq_newline_iff : (encode text).head? = some 10 ↔ text.head? = some '\n' := by
  cases text with
  | nil => exact ⟨nofun, nofun⟩
  | cons char rest =>
    obtain ⟨lead, tail, parts, _⟩ := Octets.exists_lead_of_encodeChar char
    have bytes : (encode (char :: rest)).head? = some lead :=
      congrArg (fun bytes => (bytes ++ encode rest).head?) parts
    rw [bytes, List.head?_cons, Option.some_inj, Option.some_inj, ← newline_mem_encodeChar_iff]
    constructor
    · rintro rfl
      exact parts ▸ List.mem_cons_self
    · intro member
      rw [newline_mem_encodeChar_iff.mp member] at parts
      exact (List.cons.inj parts).1.symm

theorem getLast?_encode_eq_newline_iff : (encode text).getLast? = some 10 ↔ text.endsLine = true := by
  rcases List.eq_nil_or_concat text with rfl | ⟨front, char, rfl⟩
  · exact ⟨nofun, nofun⟩
  · have last : encode [char] = String.utf8EncodeChar char := List.append_nil _
    have full : String.utf8EncodeChar char ≠ [] := last ▸ encode_ne_nil (List.cons_ne_nil char [])
    rw [List.concat_eq_append, encode_append, last, List.getLast?_append,
      List.getLast?_eq_some_getLast full, Option.some_or, endsLine_append front (List.cons_ne_nil _ _)]
    have newline : endsLine [char] = true ↔ char = '\n' := beq_iff_eq.trans Option.some_inj
    rw [newline, ← newline_mem_encodeChar_iff, Option.some_inj]
    constructor
    · intro closes
      exact closes ▸ List.getLast_mem full
    · intro member
      obtain rfl := newline_mem_encodeChar_iff.mp member
      rfl

end Newline

/-- The last boundary at or below an offset ends what is taken up to the offset. -/
theorem lastBoundary_encode (text : Text) (offset : Nat) :
    Octets.lastBoundary (encode text) offset = (text.takeBytes offset).byteCount := by
  apply (Octets.isGreatest_lastBoundary (encode text) offset).unique
  have taken := byteCount_takeBytes_le offset text
  have boundary := isBoundary_of_isPrefix (takeBytes_isPrefix offset text)
  have inside := le_byteCount_of_isBoundary boundary
  -- What is taken ends at a boundary, and a prefix up to any other boundary below is taken whole.
  refine ⟨⟨(Octets.isBoundary_encode text _).trans boundary, ?_⟩, ?_⟩
  · rw [length_encode]
    omega
  · rintro place ⟨stands, below⟩
    rw [Octets.isBoundary_encode] at stands
    obtain ⟨front, back, rfl, rfl⟩ := isBoundary_iff.mp stands
    obtain ⟨more, longer⟩ :=
      isPrefix_takeBytes (List.prefix_append front back) (show front.byteCount ≤ offset by omega)
    rw [← longer, byteCount_append]
    exact Nat.le_add_right _ _

end Text

end NextEdit
