import NextEdit.Proofs.Legacy.Extent

/-! Where the cursor of an answer goes. A cursor behind the start marker keeps its place: it stands as
far behind the start of the region as in the answer, or at the end of the region. The count starts at a
marker only where that marker stands in front of the cursor, so a cursor in front of the region lands
inside of it; and a region that is crossed loses its cursor. -/
namespace NextEdit.Legacy

/-- The text with the standard cursor at an offset. -/
def insertCursor (offset : Nat) (text : Text) : Text :=
  text.takeBytes offset ++ Marker.cursor ++ text.dropBytes offset

/-- A place of the answer as an offset in its region; one outside is moved to the nearer end. -/
def offsetInRegion (content : Text) (place : Nat) : Nat :=
  min (place - innerStart content) (region content).byteCount

/-- The start marker, where there is one, stands in front of the cursor. -/
def StartsBefore (content before : Text) : Prop :=
  Marker.regionStart <:+: content → Marker.regionStart <:+: before

theorem insertCursor_min (offset : Nat) (text : Text) :
    insertCursor (min offset text.byteCount) text = insertCursor offset text := by
  rcases Nat.le_total offset text.byteCount with inside | beyond
  · rw [Nat.min_eq_left inside]
  · rw [Nat.min_eq_right beyond, insertCursor, insertCursor, Text.takeBytes_of_byteCount_le beyond,
      Text.takeBytes_of_byteCount_le (Nat.le_refl _), Text.dropBytes_of_byteCount_le beyond,
      Text.dropBytes_of_byteCount_le (Nat.le_refl _)]

section First

variable {before rest more : Text}

/-- What stands in front of the first cursor marker stays in front. -/
theorem withoutCursors_of_first (free : ¬ Marker.legacyCursor <:+: before) (rest : Text) :
    withoutCursors (before ++ (Marker.legacyCursor ++ rest)) = before ++ withoutCursors rest := by
  have tag := isTag_of_mem_markers legacyCursor_mem
  rw [withoutCursors, Text.eraseAll_append tag.inline.1 ((tag.endsBefore tag).not_straddles _ _),
    Text.eraseAll_hit tag.inline.1, Text.eraseAll_of_free free, withoutCursors]

theorem regionWithCursor_of_first (free : ¬ Marker.legacyCursor <:+: before) (rest : Text) :
    regionWithCursor (before ++ (Marker.legacyCursor ++ rest)) =
      if Crossed (before ++ withoutCursors rest) then []
      else insertCursor (before.byteCount - innerStart before)
        (region (before ++ withoutCursors rest)) := by
  have found := splitFirst?_marker legacyCursor_mem free rest
  simp only [regionWithCursor, withoutCursors_of_first free, found]
  rfl

/-- A start marker in front of the cursor is the start of the region too, up to the newline that the
cursor may have kept apart from it. -/
theorem sub_innerStart (shown : Marker.regionStart <:+: before) (more : Text) :
    before.byteCount - innerStart before = before.byteCount - innerStart (before ++ more) := by
  obtain ⟨lead, rest, rfl, free⟩ := exists_first regionStart_mem shown
  rw [innerStart_of_first free, List.append_assoc, List.append_assoc, innerStart_of_first free]
  cases rest with
  | nil => simp only [List.append_nil, Nat.sub_eq_zero_of_le (Nat.le_add_right _ _)]
  | cons char rest => rfl

/-- A start marker that does not stand in front of the cursor ends behind it. -/
theorem le_innerStart (found : Marker.regionStart <:+: before ++ more)
    (hidden : ¬ Marker.regionStart <:+: before) :
    before.byteCount ≤ innerStart (before ++ more) := by
  obtain ⟨lead, rest, parts, free⟩ := exists_first regionStart_mem found
  rw [parts, innerStart_of_first free]
  apply Nat.le_add_right_of_le
  apply Nat.le_of_lt
  apply Nat.not_le.mp
  intro shorter
  have stands : lead ++ Marker.regionStart <+: before ++ more :=
    ⟨rest, by rw [parts, List.append_assoc]⟩
  have inside := Text.isPrefix_of_byteCount_le stands (List.prefix_append before more) shorter
  exact hidden ((List.suffix_append lead Marker.regionStart).isInfix.trans inside.isInfix)

end First

section Region

variable {answer content : Text} {place : Nat}

/-- A boundary of the answer is one of its region as well. -/
theorem isBoundary_offsetInRegion (uncrossed : ¬ Crossed content)
    (boundary : content.isBoundary place = true) :
    (region content).isBoundary (offsetInRegion content place) = true := by
  obtain ⟨front, back, parts, start, _⟩ := exists_parts_of_region uncrossed
  obtain ⟨left, right, others, here⟩ := Text.isBoundary_iff.mp boundary
  have frontStands : front <+: content := ⟨_, parts.symm⟩
  have leftStands : left <+: content := ⟨_, others.symm⟩
  rw [offsetInRegion, ← start, ← here]
  rcases Nat.le_total left.byteCount front.byteCount with ahead | behind
  · rw [Nat.sub_eq_zero_of_le ahead, Nat.zero_min]
    exact Text.isBoundary_byteCount [] _
  · obtain ⟨inner, rfl⟩ := Text.isPrefix_of_byteCount_le frontStands leftStands behind
    have innerStands : inner <+: region content ++ back := by
      apply (List.prefix_append_right_inj front).mp
      rwa [← parts]
    rw [Text.byteCount_append, Nat.add_sub_cancel_left]
    rcases Nat.le_total (Text.byteCount inner) (region content).byteCount with short | long
    · rw [Nat.min_eq_left short]
      exact Text.isBoundary_of_isPrefix
        (Text.isPrefix_of_byteCount_le innerStands (List.prefix_append _ _) short)
    · rw [Nat.min_eq_right long]
      exact Text.isBoundary_of_isPrefix List.prefix_rfl

/-- The standard cursor stands in the region where the first cursor marker of the answer stood, if the
start marker is in front of it or missing. A cursor in front of the start marker goes as far into the
region as it stood behind the start of the answer, and not to the start of the region. A crossed region
has no cursor. -/
theorem cursor_counted_from_start (found : Text.find? Marker.legacyCursor answer = some place) :
    let content := withoutCursors answer
    let offset := offsetInRegion content place
    (¬ Crossed content → StartsBefore content (answer.takeBytes place) →
      (region content).isBoundary offset = true ∧
        regionWithCursor answer = insertCursor offset (region content)) ∧
    (¬ Crossed content → ¬ StartsBefore content (answer.takeBytes place) →
      offset = 0 ∧ regionWithCursor answer = insertCursor place (region content)) ∧
    (Crossed content → region content = [] ∧ regionWithCursor answer = []) := by
  obtain ⟨⟨before, rest⟩, cut, rfl⟩ := Option.map_eq_some_iff.mp found
  obtain ⟨rfl, free⟩ := Text.exists_of_splitFirst? (isTag_of_mem_markers legacyCursor_mem).inline.1 cut
  dsimp only
  rw [withoutCursors_of_first free, regionWithCursor_of_first free, Text.takeBytes_append]
  refine ⟨?_, ?_, ?_⟩
  · intro uncrossed starts
    have sameCount : before.byteCount - innerStart before =
        before.byteCount - innerStart (before ++ withoutCursors rest) := by
      by_cases shown : Marker.regionStart <:+: before
      · exact sub_innerStart shown _
      · rw [innerStart_of_free shown, innerStart_of_free (mt starts shown)]
    rw [if_neg uncrossed, sameCount, offsetInRegion, insertCursor_min]
    exact ⟨isBoundary_offsetInRegion uncrossed (Text.isBoundary_byteCount _ _), rfl⟩
  · intro uncrossed hidden
    obtain ⟨stands, absent⟩ := Classical.not_imp.mp hidden
    rw [if_neg uncrossed, innerStart_of_free absent, offsetInRegion,
      Nat.sub_eq_zero_of_le (le_innerStart stands absent)]
    exact ⟨Nat.zero_min _, rfl⟩
  · intro crossed
    exact ⟨region_of_crossed crossed, if_pos crossed⟩

/-- The offset of the cursor counts bytes. -/
theorem cursor_counted_from_start_behind_accent :
    let answer :=
      "<|editable_region_start|>\ncafé<|user_cursor_is_here|> au lait\n<|editable_region_end|>".toList
    Text.find? Marker.legacyCursor answer = some 31 ∧
      offsetInRegion (withoutCursors answer) 31 = 5 ∧
      regionWithCursor answer = "café<|user_cursor|> au lait".toList := by
  intro answer
  have places : Text.find? Marker.legacyCursor answer = some 31 ∧ ¬ Crossed (withoutCursors answer) ∧
      offsetInRegion (withoutCursors answer) 31 = 5 ∧
      Text.takeBytes 31 answer = Marker.regionStart ++ "\ncafé".toList ∧
      region (withoutCursors answer) = "café au lait".toList := by
    decide +kernel
  obtain ⟨found, uncrossed, offset, front, kept⟩ := places
  have starts : StartsBefore (withoutCursors answer) (Text.takeBytes 31 answer) := fun _ =>
    front ▸ (List.prefix_append _ _).isInfix
  obtain ⟨_, placed⟩ := (cursor_counted_from_start found).1 uncrossed starts
  refine ⟨found, offset, ?_⟩
  rw [placed, offset, kept]
  decide +kernel

/-- An emptied region whose markers share a newline loses its cursor, which belongs at its only place. A
cursor in front of the region, which belongs at its start, lands in the middle of it. -/
theorem cursor_lost_or_displaced :
    let emptied := "<|editable_region_start|>\n<|user_cursor_is_here|><|editable_region_end|>".toList
    let ahead := ("ab<|user_cursor_is_here|>\n<|editable_region_start|>\nx = 1\n" ++
      "<|editable_region_end|>").toList
    (Text.find? Marker.legacyCursor emptied = some 26 ∧
      insertCursor (offsetInRegion (withoutCursors emptied) 26) (region (withoutCursors emptied)) =
        "<|user_cursor|>".toList ∧
      regionWithCursor emptied = []) ∧
    (Text.find? Marker.legacyCursor ahead = some 2 ∧
      insertCursor (offsetInRegion (withoutCursors ahead) 2) (region (withoutCursors ahead)) =
        "<|user_cursor|>x = 1".toList ∧
      regionWithCursor ahead = "x <|user_cursor|>= 1".toList) := by
  decide +kernel

end Region

end NextEdit.Legacy
