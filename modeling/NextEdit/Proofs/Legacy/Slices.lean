import NextEdit.Legacy.Slices
import NextEdit.Proofs.Legacy.Readings
import NextEdit.Proofs.Text.Bytes

/-! The slices that the readings of an answer cut out of its bytes. Every slice starts and stops between
characters, so decoding one never fails, and what is decoded is what the readings give over characters. -/
namespace NextEdit.Legacy

namespace Slice

/-- The slice stops behind its start and cuts no character. -/
structure IsWhole (data : Octets) (slice : Slice) : Prop where
  ordered : slice.start ≤ slice.stop
  start : Octets.isBoundary data slice.start = true
  stop : Octets.isBoundary data slice.stop = true

variable {content : Text} {slice : Slice}

theorem isWhole_append (front middle back : Text) :
    IsWhole (Text.encode (front ++ (middle ++ back)))
      ⟨front.byteCount, front.byteCount + middle.byteCount⟩ := by
  have stop := Text.isBoundary_byteCount (front ++ middle) back
  rw [Text.byteCount_append, List.append_assoc] at stop
  refine ⟨Nat.le_add_right _ _, ?_, ?_⟩
  · exact (Octets.isBoundary_encode _ _).trans (Text.isBoundary_byteCount front _)
  · exact (Octets.isBoundary_encode _ _).trans stop

theorem bytes_append (front middle back : Text) :
    bytes (Text.encode (front ++ (middle ++ back)))
      ⟨front.byteCount, front.byteCount + middle.byteCount⟩ = Text.encode middle := by
  rw [bytes, Nat.add_sub_cancel_left, Text.take_drop_encode]

theorem decode?_append (front middle back : Text) :
    decode? (Text.encode (front ++ (middle ++ back)))
      ⟨front.byteCount, front.byteCount + middle.byteCount⟩ = some middle := by
  rw [decode?, bytes_append, Text.decode_of_encode]

/-- The bytes of a whole slice are the part of the text that stands there. -/
theorem decode?_of_isWhole (whole : slice.IsWhole (Text.encode content)) :
    slice.decode? (Text.encode content) = some (content.between slice.start slice.stop) := by
  obtain ⟨ordered, first, second⟩ := whole
  rw [Octets.isBoundary_encode] at first second
  obtain ⟨front, middle, back, parts, start, stop⟩ := Text.exists_parts first second ordered
  have decoded := decode?_append front middle back
  have cut := Text.between_append front middle back
  rw [← parts, stop, start] at decoded cut
  rw [cut]
  exact decoded

end Slice

section Offsets

variable {marker lead : Text}

/-- The bytes of a marker are found where the marker stands first. -/
theorem find?_marker (member : marker ∈ markers) (free : ¬ marker <:+: lead) (rest : Text) :
    Octets.find? (Text.encode marker) (Text.encode (lead ++ (marker ++ rest))) =
      some lead.byteCount := by
  rw [Text.find?_encode (isTag_of_mem_markers member).inline.1, Text.find?,
    splitFirst?_marker member free]
  rfl

theorem find?_of_free (member : marker ∈ markers) (free : ¬ marker <:+: lead) :
    Octets.find? (Text.encode marker) (Text.encode lead) = none := by
  rw [Text.find?_encode (isTag_of_mem_markers member).inline.1, Text.find?,
    Text.splitFirst?_eq_none free]
  rfl

theorem startOffset_encode (content : Text) : startOffset (Text.encode content) = innerStart content := by
  by_cases found : Marker.regionStart <:+: content
  · obtain ⟨lead, rest, rfl, free⟩ := exists_first regionStart_mem found
    have behind : lead.byteCount + (Text.encode Marker.regionStart).length =
        Text.byteCount (lead ++ Marker.regionStart) := by
      rw [Text.length_encode, Text.byteCount_append]
    have next := Text.getElem?_encode_append (lead ++ Marker.regionStart) rest
    rw [List.append_assoc] at next
    simp only [startOffset, find?_marker regionStart_mem free, behind, next,
      Text.head?_encode_eq_newline_iff, innerStart_of_first free]
    split <;> rfl
  · rw [startOffset, find?_of_free regionStart_mem found, innerStart_of_free found]

/-- The newline in front of an end marker is seen in the bytes as in the text. -/
theorem stop_eq_dropEnding (lead rest : Text) :
    (if 0 < lead.byteCount ∧ (Text.encode (lead ++ rest))[lead.byteCount - 1]? = some 10
      then lead.byteCount - 1 else lead.byteCount) = (Text.dropEnding ['\n'] lead).byteCount := by
  rw [Text.byteCount_dropEnding_newline]
  by_cases empty : lead = []
  · rw [empty]
    rfl
  · have full := Text.byteCount_pos empty
    simp only [Text.getElem?_encode_append_pred lead rest full, Text.getLast?_encode_eq_newline_iff,
      full, true_and]
    split <;> rfl

theorem stopOffset?_encode (content : Text) :
    stopOffset? (Text.encode content) = innerStop? content := by
  by_cases found : Marker.regionEnd <:+: content
  · obtain ⟨lead, rest, rfl, free⟩ := exists_first regionEnd_mem found
    rw [stopOffset?, find?_marker regionEnd_mem free, innerStop?_of_first free, Option.map_some,
      stop_eq_dropEnding]
  · rw [stopOffset?, find?_of_free regionEnd_mem found, innerStop?_of_free found]
    rfl

end Offsets

section Lenient

variable {answer content before : Text}

theorem strippedOctets_encode (answer : Text) :
    strippedOctets (Text.encode answer) = Text.encode (withoutCursors answer) :=
  Text.eraseAll_encode (isTag_of_mem_markers legacyCursor_mem).inline.1 answer

theorem stopOffset_encode (content : Text) :
    (stopOffset? (Text.encode content)).getD (Text.encode content).length = innerStop content := by
  rw [stopOffset?_encode, Text.length_encode, innerStop]

theorem lenientSlices_of_crossed (crossed : Crossed (withoutCursors answer)) :
    lenientSlices (Text.encode answer) = [] := by
  simp only [lenientSlices, strippedOctets_encode, stopOffset_encode, startOffset_encode]
  exact if_pos crossed

theorem lenientSlices_of_free (uncrossed : ¬ Crossed (withoutCursors answer))
    (free : ¬ Marker.legacyCursor <:+: answer) :
    lenientSlices (Text.encode answer) =
      [⟨innerStart (withoutCursors answer), innerStop (withoutCursors answer)⟩] := by
  simp only [lenientSlices, strippedOctets_encode, stopOffset_encode, startOffset_encode,
    find?_of_free legacyCursor_mem free]
  exact if_neg uncrossed

theorem bytes_region (uncrossed : ¬ Crossed content) :
    Slice.bytes (Text.encode content) ⟨innerStart content, innerStop content⟩ =
      Text.encode (region content) := by
  obtain ⟨front, back, parts, start, stop⟩ := exists_parts_of_region uncrossed
  have cut := Slice.bytes_append front (region content) back
  rwa [← parts, stop, start] at cut

theorem lenientSlices_of_first (free : ¬ Marker.legacyCursor <:+: before) (rest : Text)
    (uncrossed : ¬ Crossed (before ++ withoutCursors rest)) :
    let content := before ++ withoutCursors rest
    let left := (region content).takeBytes (before.byteCount - innerStart before)
    lenientSlices (Text.encode (before ++ (Marker.legacyCursor ++ rest))) =
      [⟨innerStart content, innerStart content + left.byteCount⟩,
        ⟨innerStart content + left.byteCount, innerStop content⟩] := by
  have front : (Text.encode (before ++ (Marker.legacyCursor ++ rest))).take before.byteCount =
      Text.encode before := by
    rw [Text.encode_append, List.take_left' (Text.length_encode before)]
  simp only [lenientSlices, strippedOctets_encode, stopOffset_encode, startOffset_encode,
    find?_marker legacyCursor_mem free, withoutCursors_of_first free, front, bytes_region uncrossed,
    Text.lastBoundary_encode]
  exact if_neg uncrossed

theorem region_slice (uncrossed : ¬ Crossed content) :
    let slice : Slice := ⟨innerStart content, innerStop content⟩
    slice.IsWhole (Text.encode content) ∧
      decodeSlices? (Text.encode content) [slice] = some (region content) := by
  obtain ⟨front, back, parts, start, stop⟩ := exists_parts_of_region uncrossed
  have whole := Slice.isWhole_append front (region content) back
  have decoded := Slice.decode?_append front (region content) back
  rw [← parts, stop, start] at whole decoded
  refine ⟨whole, ?_⟩
  rw [decodeSlices?, List.mapM_cons, decoded]
  rfl

/-- The region is cut at a boundary by any offset moved down to one. -/
theorem region_slices (uncrossed : ¬ Crossed content) (offset : Nat) :
    let cut := innerStart content + ((region content).takeBytes offset).byteCount
    let ahead : Slice := ⟨innerStart content, cut⟩
    let behind : Slice := ⟨cut, innerStop content⟩
    (ahead.IsWhole (Text.encode content) ∧ behind.IsWhole (Text.encode content)) ∧
      decodeSlices? (Text.encode content) [ahead, behind] =
        some (insertCursor offset (region content)) := by
  obtain ⟨front, back, parts, start, stop⟩ := exists_parts_of_region uncrossed
  have sides := Text.takeBytes_append_dropBytes offset (region content)
  generalize left_eq : (region content).takeBytes offset = left at sides ⊢
  generalize right_eq : (region content).dropBytes offset = right at sides
  rw [← sides, List.append_assoc] at parts
  rw [← sides, Text.byteCount_append, ← Nat.add_assoc, start] at stop
  have ahead := Slice.isWhole_append front left (right ++ back)
  have behind := Slice.isWhole_append (front ++ left) right back
  have first := Slice.decode?_append front left (right ++ back)
  have second := Slice.decode?_append (front ++ left) right back
  rw [← parts, start] at ahead first
  rw [List.append_assoc, ← parts, Text.byteCount_append, start, stop] at behind second
  refine ⟨⟨ahead, behind⟩, ?_⟩
  rw [decodeSlices?, List.mapM_cons, first, List.mapM_cons, second, insertCursor, left_eq, right_eq]
  rfl

/-- Every slice of the lenient reading is whole, and together they are what it gives. -/
theorem lenientSlices_whole (answer : Text) :
    (∀ slice ∈ lenientSlices (Text.encode answer),
      slice.IsWhole (Text.encode (withoutCursors answer))) ∧
    readLeniently? (Text.encode answer) = some (regionWithCursor answer) := by
  rw [readLeniently?, strippedOctets_encode]
  -- A crossed region is not sliced, so the offsets of a slice are always in order.
  by_cases crossed : Crossed (withoutCursors answer)
  · rw [lenientSlices_of_crossed crossed]
    exact ⟨List.forall_mem_nil _, congrArg some (if_pos crossed).symm⟩
  · by_cases found : Marker.legacyCursor <:+: answer
    · obtain ⟨before, rest, rfl, free⟩ := exists_first legacyCursor_mem found
      rw [withoutCursors_of_first free] at crossed ⊢
      obtain ⟨⟨ahead, behind⟩, decoded⟩ :=
        region_slices crossed (before.byteCount - innerStart before)
      rw [lenientSlices_of_first free rest crossed, regionWithCursor_of_first free, if_neg crossed]
      exact ⟨List.forall_mem_cons.mpr ⟨ahead, List.forall_mem_singleton.mpr behind⟩, decoded⟩
    · obtain ⟨whole, decoded⟩ := region_slice crossed
      rw [lenientSlices_of_free crossed found, regionWithCursor_of_free found]
      exact ⟨List.forall_mem_singleton.mpr whole, decoded⟩

end Lenient

section Strict

theorem strictSlice_encode (content : Text) : strictSlice (Text.encode content) =
    ⟨min (innerStart content) (strictStop content), strictStop content⟩ := by
  have unclosed : (if (Text.encode content).getLast? = some 10 then (Text.encode content).length - 1
      else (Text.encode content).length) = (Text.dropEnding ['\n'] content).byteCount := by
    rw [Text.byteCount_dropEnding_newline, Text.length_encode]
    simp only [Text.getLast?_encode_eq_newline_iff]
    split <;> rfl
  simp only [strictSlice, unclosed, stopOffset?_encode, startOffset_encode]
  rfl

theorem strictSlice_isWhole (content : Text) :
    (strictSlice (Text.encode content)).IsWhole (Text.encode content) := by
  rw [strictSlice_encode]
  refine ⟨Nat.min_le_right _ _, ?_, ?_⟩
  · rw [Octets.isBoundary_encode]
    rcases Nat.le_total (innerStart content) (strictStop content) with ordered | crossed
    · rw [Nat.min_eq_left ordered]
      exact isBoundary_innerStart content
    · rw [Nat.min_eq_right crossed]
      exact isBoundary_strictStop content
  · rw [Octets.isBoundary_encode]
    exact isBoundary_strictStop content

theorem readStrictly_eq (answer : Text) :
    readStrictly answer = (extract answer).mapError .repeated := by
  cases twice : repeatedMarker? (withoutCursors answer) with
  | some error =>
    simp only [readStrictly, extract, twice]
    rfl
  | none =>
    have decoded := Slice.decode?_of_isWhole (strictSlice_isWhole (withoutCursors answer))
    have accepted := extract_eq_ok_iff.mpr ⟨twice, rfl⟩
    rw [accepted]
    simp only [readStrictly, twice, decoded]
    rw [strictSlice_encode]
    rfl

end Strict

/-- Over the bytes of any answer, every slice that a reading decodes starts and stops between characters
of the stripped answer, its start in front of its stop. So no reading meets bytes that it cannot decode,
and over bytes both give what they give over characters. -/
theorem readings_slice_between_characters (answer : Text) :
    let stripped := strippedOctets (Text.encode answer)
    stripped = Text.encode (withoutCursors answer) ∧
    (∀ slice ∈ lenientSlices (Text.encode answer), slice.IsWhole stripped) ∧
    readLeniently? (Text.encode answer) = some (regionWithCursor answer) ∧
    (strictSlice stripped).IsWhole stripped ∧
    readStrictly answer = (extract answer).mapError .repeated := by
  intro stripped
  have content : stripped = Text.encode (withoutCursors answer) := strippedOctets_encode answer
  obtain ⟨whole, read⟩ := lenientSlices_whole answer
  rw [content]
  exact ⟨rfl, whole, read, strictSlice_isWhole _, readStrictly_eq answer⟩

/-- A cursor in front of the region counts one byte into a character of two, and moves in front of it. -/
theorem readings_slice_between_characters_at_accent :
    let answer := ("a<|user_cursor_is_here|><|editable_region_start|>é" ++
      "<|editable_region_end|>").toList
    let stripped := strippedOctets (Text.encode answer)
    Octets.isBoundary stripped 27 = false ∧
      ⟨26, 28⟩ ∈ lenientSlices (Text.encode answer) ∧ Slice.IsWhole stripped ⟨26, 28⟩ ∧
      readLeniently? (Text.encode answer) = some (Marker.cursor ++ ['é']) := by
  intro answer stripped
  have places : Octets.isBoundary stripped 27 = false ∧
      lenientSlices (Text.encode answer) = [⟨26, 26⟩, ⟨26, 28⟩] ∧
      regionWithCursor answer = Marker.cursor ++ ['é'] := by
    decide +kernel
  obtain ⟨inside, slices, result⟩ := places
  obtain ⟨_, whole, read, _⟩ := readings_slice_between_characters answer
  have member : ⟨26, 28⟩ ∈ lenientSlices (Text.encode answer) := by
    rw [slices]
    exact List.mem_cons_of_mem _ List.mem_cons_self
  exact ⟨inside, member, whole _ member, read.trans (congrArg some result)⟩

end NextEdit.Legacy
