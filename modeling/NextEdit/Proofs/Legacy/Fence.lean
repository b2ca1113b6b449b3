import NextEdit.Proofs.Legacy.Cursor

/-! The fence of region markers in an answer. Whatever stands in front of the fence and behind it, the
text between its markers is found again, also where cursor markers are taken out first. -/
namespace NextEdit.Legacy

/-- What may stand in front of a fence: no marker but one that says where the file starts. -/
structure IsLead (lead : Text) : Prop where
  cursor : ¬ Marker.legacyCursor <:+: lead
  start : ¬ Marker.regionStart <:+: lead
  stop : ¬ Marker.regionEnd <:+: lead
  file : Text.count Marker.startOfFile lead ≤ 1

/-- A text between region markers that stand on lines of their own towards it. -/
def fenced (lead inner tail : Text) : Text :=
  lead ++ Marker.regionStart ++ ['\n'] ++ inner ++ ['\n'] ++ Marker.regionEnd ++ tail

section Fenced

variable {lead inner tail : Text}

theorem fenced_eq (lead inner tail : Text) :
    fenced lead inner tail =
      lead ++ (Marker.regionStart ++ '\n' :: (inner ++ '\n' :: (Marker.regionEnd ++ tail))) := by
  simp only [fenced, List.append_assoc, List.cons_append, List.nil_append]

theorem not_straddles_regionStart (member : marker ∈ markers) (lead rest : Text) :
    ¬ Text.Straddles marker lead (Marker.regionStart ++ rest) :=
  ((isTag_of_mem_markers member).endsBefore (isTag_of_mem_markers regionStart_mem)).not_straddles
    lead rest

theorem not_straddles_regionEnd (member : marker ∈ markers) (rest : Text) :
    ¬ Text.Straddles marker Marker.regionEnd rest :=
  ((isTag_of_mem_markers member).startsBehind (isTag_of_mem_markers regionEnd_mem)).not_straddles
    [] rest

/-- A scan counts in the parts of a fenced text apart. -/
theorem count_fenced (member : marker ∈ markers) (lead inner tail : Text) :
    Text.count marker (fenced lead inner tail) = Text.count marker lead +
      (Text.count marker Marker.regionStart + (Text.count marker inner +
        (Text.count marker Marker.regionEnd + Text.count marker tail))) := by
  have inline := (isTag_of_mem_markers member).inline
  rw [fenced_eq, Text.count_append inline.1 (not_straddles_regionStart member _ _),
    inline.count_line, inline.count_line,
    Text.count_append inline.1 (not_straddles_regionEnd member _)]

/-- Taking out cursor markers leaves the fence, and what is outside of it. -/
theorem withoutCursors_fenced (leadFree : ¬ Marker.legacyCursor <:+: lead)
    (tailFree : ¬ Marker.legacyCursor <:+: tail) (inner : Text) :
    withoutCursors (fenced lead inner tail) = fenced lead (withoutCursors inner) tail := by
  have inline := (isTag_of_mem_markers legacyCursor_mem).inline
  have startFree := not_infix_of_ne legacyCursor_mem regionStart_mem (by decide)
  have endFree := not_infix_of_ne legacyCursor_mem regionEnd_mem (by decide)
  rw [fenced_eq, fenced_eq, withoutCursors, withoutCursors,
    Text.eraseAll_append inline.1 (not_straddles_regionStart legacyCursor_mem _ _),
    inline.eraseAll_line, inline.eraseAll_line,
    Text.eraseAll_append inline.1 (not_straddles_regionEnd legacyCursor_mem _),
    Text.eraseAll_of_free leadFree, Text.eraseAll_of_free startFree, Text.eraseAll_of_free endFree,
    Text.eraseAll_of_free tailFree]

/-- The text up to the region, with the newline behind the start marker. -/
def opened (lead : Text) : Text :=
  lead ++ Marker.regionStart ++ ['\n']

theorem infix_opened_iff (member : marker ∈ markers) : marker <:+: opened lead ++ text ↔
    marker <:+: lead ∨ marker <:+: Marker.regionStart ∨ marker <:+: text := by
  simp only [opened, List.append_assoc, List.cons_append, List.nil_append]
  rw [Text.infix_append_iff_of_not_straddles (not_straddles_regionStart member lead _),
    (isTag_of_mem_markers member).inline.infix_iff]

theorem innerStart_opened (leadFree : ¬ Marker.regionStart <:+: lead) (rest : Text) :
    innerStart (opened lead ++ rest) = Text.byteCount (opened lead) := by
  have parts : opened lead ++ rest = lead ++ (Marker.regionStart ++ '\n' :: rest) := by
    simp only [opened, List.append_assoc, List.cons_append, List.nil_append]
  rw [parts, innerStart_of_first leadFree, opened, Text.byteCount_append _ ['\n']]
  rfl

/-- A newline right before the end marker is not in the region. -/
theorem innerStop?_fenced (leadFree : ¬ Marker.regionEnd <:+: lead)
    (innerFree : ¬ Marker.regionEnd <:+: inner) :
    innerStop? (fenced lead inner tail) =
      some (Text.byteCount (opened lead) + Text.byteCount inner) := by
  have inline := (isTag_of_mem_markers regionEnd_mem).inline
  have startFree := not_infix_of_ne regionEnd_mem regionStart_mem (by decide)
  have nothing : ¬ Marker.regionEnd <:+: [] := mt List.infix_nil.mp inline.1
  have free : ¬ Marker.regionEnd <:+: opened lead ++ inner ++ ['\n'] := by
    rw [List.append_assoc, infix_opened_iff regionEnd_mem, inline.infix_iff]
    simp only [leadFree, startFree, innerFree, nothing, or_self, not_false_eq_true]
  have parts : fenced lead inner tail =
      opened lead ++ inner ++ ['\n'] ++ (Marker.regionEnd ++ tail) :=
    List.append_assoc _ _ _
  rw [parts, innerStop?_of_first free, Text.dropEnding_append, Text.byteCount_append]

theorem fenced_eq_opened (lead inner tail : Text) :
    fenced lead inner tail = opened lead ++ (inner ++ '\n' :: (Marker.regionEnd ++ tail)) := by
  simp only [fenced, opened, List.append_assoc, List.cons_append, List.nil_append]

theorem innerStart_fenced (leadFree : ¬ Marker.regionStart <:+: lead) :
    innerStart (fenced lead inner tail) = Text.byteCount (opened lead) := by
  rw [fenced_eq_opened, innerStart_opened leadFree]

theorem between_fenced (lead inner tail : Text) :
    Text.between (Text.byteCount (opened lead)) (Text.byteCount (opened lead) + Text.byteCount inner)
      (fenced lead inner tail) = inner := by
  rw [fenced_eq_opened, Text.between_append]

theorem region_fenced (leadIs : IsLead lead) (innerFree : ¬ Marker.regionEnd <:+: inner) :
    region (fenced lead inner tail) = inner := by
  simp only [region, innerStart_fenced leadIs.start, innerStop?_fenced leadIs.stop innerFree,
    Option.getD_some, if_neg (Nat.not_lt.mpr (Nat.le_add_right _ _)), between_fenced]

/-- No marker occurs twice in a fenced text that brings none, and at most one start of the file. -/
theorem repeatedMarker?_fenced (leadIs : IsLead lead) (innerFree : Unmarked inner)
    (tailFree : Unmarked tail) : repeatedMarker? (fenced lead inner tail) = none := by
  have once {marker : Text} (member : marker ∈ markers)
      (outside : Text.count marker lead + (Text.count marker Marker.regionStart +
        Text.count marker Marker.regionEnd) ≤ 1) :
      ¬ 1 < Text.count marker (fenced lead inner tail) := by
    rw [count_fenced member, count_of_free member (innerFree marker member),
      count_of_free member (tailFree marker member)]
    omega
  have start : ¬ 1 < Text.count Marker.regionStart (fenced lead inner tail) := by
    refine once regionStart_mem ?_
    rw [count_of_free regionStart_mem leadIs.start,
      Text.count_self (isTag_of_mem_markers regionStart_mem).inline.1,
      count_of_free regionStart_mem (not_infix_of_ne regionStart_mem regionEnd_mem (by decide))]
  have stop : ¬ 1 < Text.count Marker.regionEnd (fenced lead inner tail) := by
    refine once regionEnd_mem ?_
    rw [count_of_free regionEnd_mem leadIs.stop,
      Text.count_self (isTag_of_mem_markers regionEnd_mem).inline.1,
      count_of_free regionEnd_mem (not_infix_of_ne regionEnd_mem regionStart_mem (by decide))]
  have file : ¬ 1 < Text.count Marker.startOfFile (fenced lead inner tail) := by
    refine once startOfFile_mem ?_
    rw [count_of_free startOfFile_mem (not_infix_of_ne startOfFile_mem regionStart_mem (by decide)),
      count_of_free startOfFile_mem (not_infix_of_ne startOfFile_mem regionEnd_mem (by decide))]
    exact leadIs.file
  simp only [repeatedMarker?, singleMarkers, List.findSome?_cons, List.findSome?_nil, if_neg start,
    if_neg stop, if_neg file]

/-- Cursor markers between the pieces of a text are taken out of its fence. -/
theorem withoutCursors_fenced_join (leadIs : IsLead lead) {pieces : List Text}
    (innerFree : Unmarked pieces.flatten) (tailFree : Unmarked tail) :
    withoutCursors (fenced lead (Text.join Marker.legacyCursor pieces) tail) =
      fenced lead pieces.flatten tail := by
  have tag := isTag_of_mem_markers legacyCursor_mem
  have free : ∀ piece ∈ pieces, ¬ Marker.legacyCursor <:+: piece := fun piece member found =>
    innerFree _ legacyCursor_mem (found.trans (List.infix_of_mem_flatten member))
  rw [withoutCursors_fenced leadIs.cursor (tailFree _ legacyCursor_mem), withoutCursors,
    Text.eraseAll_join tag.inline.1 (tag.endsBefore tag) free]

theorem flatten_pair (left right : Text) : [left, right].flatten = left ++ right := by
  simp only [List.flatten_cons, List.flatten_nil, List.append_nil]

/-- The strict reading finds what the fence was put around, without the cursor markers. -/
theorem extract_fenced (leadIs : IsLead lead) {pieces : List Text}
    (innerFree : Unmarked pieces.flatten) (tailFree : Unmarked tail) :
    extract (fenced lead (Text.join Marker.legacyCursor pieces) tail) = .ok pieces.flatten := by
  simp only [extract, withoutCursors_fenced_join leadIs innerFree tailFree,
    repeatedMarker?_fenced leadIs innerFree tailFree,
    innerStop?_fenced leadIs.stop (innerFree _ regionEnd_mem), innerStart_fenced leadIs.start,
    Option.getD_some, Nat.min_eq_left (Nat.le_add_right _ _), between_fenced]

theorem not_crossed_fenced (leadIs : IsLead lead) (innerFree : ¬ Marker.regionEnd <:+: inner) :
    ¬ Crossed (fenced lead inner tail) := by
  rw [Crossed, innerStop, innerStop?_fenced leadIs.stop innerFree, innerStart_fenced leadIs.start,
    Nat.not_lt]
  exact Nat.le_add_right _ _

/-- The lenient reading puts the standard cursor in the place of a cursor marker. -/
theorem regionWithCursor_fenced (leadIs : IsLead lead) {untilCursor fromCursor : Text}
    (innerFree : Unmarked (untilCursor ++ fromCursor)) (tailFree : Unmarked tail) :
    regionWithCursor (fenced lead (untilCursor ++ Marker.legacyCursor ++ fromCursor) tail) =
      untilCursor ++ Marker.cursor ++ fromCursor := by
  have cursorFree : ¬ Marker.legacyCursor <:+: opened lead ++ untilCursor := by
    have startFree := not_infix_of_ne legacyCursor_mem regionStart_mem (by decide)
    have untilFree := mt List.infix_append_of_infix_left (innerFree _ legacyCursor_mem)
    rw [infix_opened_iff legacyCursor_mem]
    simp only [leadIs.cursor, startFree, untilFree, or_self, not_false_eq_true]
  have parts : fenced lead (untilCursor ++ Marker.legacyCursor ++ fromCursor) tail =
      opened lead ++ untilCursor ++
        (Marker.legacyCursor ++ (fromCursor ++ '\n' :: (Marker.regionEnd ++ tail))) := by
    simp only [fenced_eq_opened, List.append_assoc]
  have content : opened lead ++ untilCursor ++
      withoutCursors (fromCursor ++ '\n' :: (Marker.regionEnd ++ tail)) =
        fenced lead (untilCursor ++ fromCursor) tail := by
    rw [← flatten_pair] at innerFree
    have taken := withoutCursors_fenced_join leadIs innerFree tailFree
    rw [flatten_pair] at taken
    rw [← taken, ← withoutCursors_of_first cursorFree, ← parts]
    rfl
  have endFree := innerFree Marker.regionEnd regionEnd_mem
  have offset : Text.byteCount (opened lead ++ untilCursor) - Text.byteCount (opened lead) =
      Text.byteCount untilCursor := by
    rw [Text.byteCount_append, Nat.add_sub_cancel_left]
  rw [parts, regionWithCursor_of_first cursorFree, content, if_neg (not_crossed_fenced leadIs endFree),
    innerStart_opened leadIs.start, region_fenced leadIs endFree, offset, insertCursor,
    Text.takeBytes_append, Text.dropBytes_append]

end Fenced

end NextEdit.Legacy
