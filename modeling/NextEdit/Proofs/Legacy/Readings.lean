import NextEdit.Proofs.Legacy.Cursor
import NextEdit.Proofs.Text.Erasure

/-! The two readings of an answer. The lenient one takes any answer and gives its region with at most
one cursor. The strict one refuses repeated markers; what it accepts it reads as the same region, where
an answer without an end marker gives up its final newline. A region holds no region marker, and a
cursor marker only where the answer had one cut up by others. -/
namespace NextEdit.Legacy

variable {answer content text : Text} {stop : Nat}

section Lenient

theorem regionWithCursor_of_free (free : ¬ Marker.legacyCursor <:+: answer) :
    regionWithCursor answer = region (withoutCursors answer) := by
  simp only [regionWithCursor, Text.splitFirst?_eq_none free]
  split
  · rename_i crossed
    exact (region_of_crossed crossed).symm
  · rfl

/-- The lenient reading gives the region, with one cursor or none. -/
theorem regionWithCursor_cases (answer : Text) :
    regionWithCursor answer = region (withoutCursors answer) ∨
      ∃ left right, region (withoutCursors answer) = left ++ right ∧
        regionWithCursor answer = left ++ Marker.cursor ++ right := by
  by_cases found : Marker.legacyCursor <:+: answer
  · obtain ⟨before, rest, rfl, free⟩ := exists_first legacyCursor_mem found
    rw [regionWithCursor_of_first free, withoutCursors_of_first free]
    split
    · rename_i crossed
      exact .inl (region_of_crossed crossed).symm
    · exact .inr ⟨_, _, (Text.takeBytes_append_dropBytes _ _).symm, rfl⟩
  · exact .inl (regionWithCursor_of_free found)

end Lenient

section Strict

theorem strictRegion_of_end (found : Marker.regionEnd <:+: content) :
    innerUntil (strictStop content) content = region content := by
  rw [strictStop_eq found, region_eq]

/-- Without an end marker the region reaches to the end of the answer, and the strict reading to the
newline there. -/
theorem strictRegion_of_free (free : ¬ Marker.regionEnd <:+: content) :
    innerUntil (strictStop content) content = Text.dropEnding ['\n'] (region content) := by
  have boundary := isBoundary_strictStop content
  have uncrossed : ¬ Crossed content := by
    rw [Crossed, innerStop_of_free free, Nat.not_lt]
    exact Text.le_byteCount_of_isBoundary (isBoundary_innerStart content)
  obtain ⟨front, back, parts, start, stop⟩ := exists_parts_of_region uncrossed
  have nothing : back = [] := by
    have size := congrArg Text.byteCount parts
    rw [Text.byteCount_append, Text.byteCount_append, ← innerStop_of_free free, ← stop] at size
    exact Text.eq_nil_of_byteCount (by omega)
  rw [nothing, List.append_nil] at parts
  by_cases empty : region content = []
  · rw [empty, List.append_nil] at parts
    have shorter : strictStop content ≤ innerStart content := by
      rw [← start, ← parts]
      exact Text.le_byteCount_of_isBoundary boundary
    rw [innerUntil_eq_nil boundary shorter, empty]
    rfl
  · have stops : strictStop content =
        front.byteCount + (Text.dropEnding ['\n'] (region content)).byteCount := by
      rw [strictStop_of_free free, ← Text.byteCount_append, ← Text.dropEnding_newline_append front empty,
        ← parts]
    obtain ⟨rest, same⟩ := Text.dropEnding_isPrefix ['\n'] (region content)
    have ordered : innerStart content ≤ strictStop content := by
      rw [stops, ← start]
      exact Nat.le_add_right _ _
    rw [innerUntil, Nat.min_eq_left ordered, stops, ← start]
    have cut := Text.between_append front (Text.dropEnding ['\n'] (region content)) rest
    rwa [same, ← parts] at cut

/-- Where the strict reading accepts an answer, the lenient one gives the same text up to its cursor and,
without an end marker, up to a final newline. -/
theorem readings_agree (accepted : extract answer = .ok text) :
    let content := withoutCursors answer
    (regionWithCursor answer = region content ∨
      ∃ left right, region content = left ++ right ∧
        regionWithCursor answer = left ++ Marker.cursor ++ right) ∧
    (¬ Marker.legacyCursor <:+: answer → regionWithCursor answer = region content) ∧
    (Marker.regionEnd <:+: content → text = region content) ∧
    (¬ Marker.regionEnd <:+: content → text = Text.dropEnding ['\n'] (region content)) := by
  obtain ⟨_, rfl⟩ := extract_eq_ok_iff.mp accepted
  exact ⟨regionWithCursor_cases answer, regionWithCursor_of_free, strictRegion_of_end,
    strictRegion_of_free⟩

/-- An answer that breaks off behind a line of its region, with the cursor in front of it; and one whose
markers share the newline between them, so that the region is crossed. -/
theorem readings_agree_unclosed_and_crossed :
    let unclosed := "a<|user_cursor_is_here|>\n<|editable_region_start|>\nb\n".toList
    let crossed := "<|editable_region_start|>\n<|editable_region_end|>".toList
    (extract unclosed = .ok "b".toList ∧ region (withoutCursors unclosed) = "b\n".toList ∧
      "b".toList = Text.dropEnding ['\n'] (region (withoutCursors unclosed))) ∧
    extract crossed = .ok [] ∧ Crossed crossed ∧ [] = region (withoutCursors crossed) ∧
      regionWithCursor crossed = region (withoutCursors crossed) := by
  intro unclosed crossed
  constructor
  · have accepted : extract unclosed = .ok "b".toList ∧
        region (withoutCursors unclosed) = "b\n".toList ∧
        ¬ Marker.regionEnd <:+: withoutCursors unclosed := by
      decide +kernel
    obtain ⟨accepted, kept, endless⟩ := accepted
    obtain ⟨_, _, _, strict⟩ := readings_agree accepted
    exact ⟨accepted, kept, strict endless⟩
  · have accepted : extract crossed = .ok [] ∧ ¬ Marker.legacyCursor <:+: crossed ∧
        Marker.regionEnd <:+: withoutCursors crossed := by
      decide +kernel
    have shared : Crossed crossed := by
      unfold Crossed
      decide +kernel
    obtain ⟨accepted, free, closed⟩ := accepted
    obtain ⟨_, plain, strict, _⟩ := readings_agree accepted
    exact ⟨accepted, shared, strict closed, plain free⟩

end Strict

section Markers

/-- The marker stands in the text twice. -/
def Repeats (marker text : Text) : Prop :=
  ∃ front middle back, text = front ++ (marker ++ (middle ++ (marker ++ back)))

theorem mem_markers (member : marker ∈ singleMarkers) : marker ∈ markers :=
  List.mem_append_left _ member

theorem one_lt_count_iff (member : marker ∈ markers) :
    1 < Text.count marker content ↔ Repeats marker content :=
  have tag := isTag_of_mem_markers member
  Text.one_lt_count_iff tag.inline.1 (tag.endsBefore tag)

theorem repeatedMarker?_eq_none_iff :
    repeatedMarker? content = none ↔ ∀ marker ∈ singleMarkers, ¬ Repeats marker content := by
  rw [repeatedMarker?, List.findSome?_eq_none_iff]
  refine forall₂_congr fun marker member => ?_
  rw [← one_lt_count_iff (mem_markers member)]
  simp

theorem exists_error_iff : (∃ error, extract answer = .error error) ↔
    ∃ marker ∈ singleMarkers, Repeats marker (withoutCursors answer) := by
  have refused : (∃ error, extract answer = .error error) ↔
      ¬ repeatedMarker? (withoutCursors answer) = none := by
    cases twice : repeatedMarker? (withoutCursors answer) <;> simp [extract, twice]
  rw [refused, repeatedMarker?_eq_none_iff]
  simp only [not_forall, not_not, exists_prop]

/-- The region starts behind a start marker, so one inside of it would be a second one. -/
theorem regionStart_free (single : ¬ Repeats Marker.regionStart content)
    (boundary : content.isBoundary stop = true) :
    ¬ Marker.regionStart <:+: innerUntil stop content := by
  intro inside
  have full := (isTag_of_mem_markers regionStart_mem).inline.1
  have ordered := innerStart_le_of_infix full boundary inside
  obtain ⟨front, back, parts, start, _⟩ := exists_parts_of_innerUntil boundary ordered
  obtain ⟨lead, rest, same, free⟩ :=
    exists_first regionStart_mem (inside.trans (innerUntil_isInfix stop content))
  have leadStands : lead ++ Marker.regionStart <+: content :=
    ⟨rest, by rw [same, List.append_assoc]⟩
  have shorter : Text.byteCount (lead ++ Marker.regionStart) ≤ front.byteCount := by
    rw [start, same, innerStart_of_first free]
    exact Nat.le_add_right _ _
  obtain ⟨gap, rfl⟩ := Text.isPrefix_of_byteCount_le leadStands ⟨_, parts.symm⟩ shorter
  obtain ⟨before, behind, inner⟩ := inside
  exact single ⟨lead, gap ++ before, behind ++ back, by
    rw [parts, ← inner]
    simp only [List.append_assoc]⟩

/-- The region stops in front of the first end marker. -/
theorem regionEnd_free (content : Text) :
    ¬ Marker.regionEnd <:+: innerUntil (strictStop content) content := by
  intro inside
  have full := (isTag_of_mem_markers regionEnd_mem).inline.1
  have boundary := isBoundary_strictStop content
  have ordered := innerStart_le_of_infix full boundary inside
  obtain ⟨front, back, parts, _, stop⟩ := exists_parts_of_innerUntil boundary ordered
  obtain ⟨before, rest, same, free⟩ :=
    exists_first regionEnd_mem (inside.trans (innerUntil_isInfix _ content))
  have shorter : Text.byteCount (front ++ innerUntil (strictStop content) content) ≤
      before.byteCount := by
    rw [Text.byteCount_append, stop, same, strictStop_of_first free,
      Text.byteCount_dropEnding_newline]
    exact Nat.sub_le _ _
  have early := Text.isPrefix_of_byteCount_le ⟨back, by rw [List.append_assoc, ← parts]⟩
    ⟨_, same.symm⟩ shorter
  exact free ((inside.trans (List.suffix_append front _).isInfix).trans early.isInfix)

/-- The strict reading refuses an answer exactly for a repeated marker. What it reads holds no region
marker, and a cursor marker only where the answer had one cut up by whole ones. -/
theorem strict_reading_unmarked (answer : Text) :
    ((∃ error, extract answer = .error error) ↔
      ∃ marker ∈ singleMarkers, Repeats marker (withoutCursors answer)) ∧
    ∀ text, extract answer = .ok text →
      ¬ Marker.regionStart <:+: text ∧ ¬ Marker.regionEnd <:+: text ∧
        (Marker.legacyCursor <:+: text → Text.CutUp Marker.legacyCursor answer) := by
  refine ⟨exists_error_iff, ?_⟩
  intro text accepted
  obtain ⟨single, rfl⟩ := extract_eq_ok_iff.mp accepted
  have once := repeatedMarker?_eq_none_iff.mp single Marker.regionStart List.mem_cons_self
  refine ⟨regionStart_free once (isBoundary_strictStop _), regionEnd_free _, ?_⟩
  intro found
  have left := found.trans (innerUntil_isInfix _ (withoutCursors answer))
  exact (isTag_of_mem_markers legacyCursor_mem).infix_eraseAll_iff.mp left

/-- An end marker that shows only once the cursor in it is taken out. -/
theorem strict_reading_unmarked_of_split_end :
    let answer :=
      "<|editable_region_start|>\na\n<|editable_<|user_cursor_is_here|>region_end|>".toList
    ¬ Marker.regionEnd <:+: answer ∧ extract answer = .ok "a".toList ∧
      ¬ Marker.regionEnd <:+: "a".toList := by
  intro answer
  have accepted : ¬ Marker.regionEnd <:+: answer ∧ extract answer = .ok "a".toList := by
    decide +kernel
  obtain ⟨hidden, accepted⟩ := accepted
  obtain ⟨_, unmarked⟩ := strict_reading_unmarked answer
  obtain ⟨_, noEnd, _⟩ := unmarked _ accepted
  exact ⟨hidden, accepted, noEnd⟩

/-- Taking out the inner of two nested cursor markers leaves the outer one. -/
theorem strict_reading_keeps_nested_cursor :
    extract "<|user_cursor_is_<|user_cursor_is_here|>here|>".toList = .ok Marker.legacyCursor := by
  decide +kernel

end Markers

end NextEdit.Legacy
