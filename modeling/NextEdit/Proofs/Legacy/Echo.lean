import NextEdit.Legacy.Instruction
import NextEdit.Proofs.Legacy.Fence
import NextEdit.Proofs.Prompt.Assembly

/-! A model that answers with the excerpt as it was shown. Reading its answer gives the editable text
back, with the cursor where it was. -/
namespace NextEdit.Legacy

section Excerpt

variable {request : Request} {editable context : Span}

/-- Stands at both ends of a fenced excerpt. -/
def quotes : Text :=
  "```".toList

/-- The line that says where the file starts. -/
def fileStart (request : Request) (context : Span) : Text :=
  if request.startRow = some 0 ∧ context.start = 0 then Marker.startOfFile ++ ['\n'] else []

/-- What a fenced excerpt shows in front of the region. -/
def excerptLead (request : Request) (editable context : Span) : Text :=
  quotes ++ request.path ++ ['\n'] ++ fileStart request context ++
    Text.between context.start editable.start request.excerpt

/-- What a fenced excerpt shows behind the region. -/
def excerptTail (request : Request) (editable context : Span) : Text :=
  Text.between editable.stop context.stop request.excerpt ++ '\n' :: quotes

/-- A fenced excerpt is a fence around the editable text, cut at the cursor. -/
theorem exists_parts_of_fencedExcerpt
    (succeeds : fencedExcerpt request editable context = .ok excerpt) :
    ∃ before untilCursor fromCursor after,
      request.excerpt = before ++ (untilCursor ++ (fromCursor ++ after)) ∧
      before.byteCount = editable.start ∧
      before.byteCount + untilCursor.byteCount = request.cursor ∧
      before.byteCount + (untilCursor.byteCount + fromCursor.byteCount) = editable.stop ∧
      excerpt = fenced (excerptLead request editable context)
        (untilCursor ++ Marker.legacyCursor ++ fromCursor) (excerptTail request editable context) := by
  obtain ⟨_, checks, shows⟩ := exists_of_bind_eq_ok succeeds
  obtain ⟨_, _, checks⟩ := exists_of_bind_eq_ok checks
  obtain ⟨_, editableFits, checks⟩ := exists_of_bind_eq_ok checks
  obtain ⟨_, cursorFits, checks⟩ := exists_of_bind_eq_ok checks
  obtain ⟨_, checks⟩ := not_of_guard checks
  obtain ⟨inside, _⟩ := not_of_guard checks
  obtain ⟨startFits, stopFits⟩ := Text.checkSpan_eq_ok_iff.mp editableFits
  obtain ⟨cursorFits, _⟩ := Text.checkSpan_eq_ok_iff.mp cursorFits
  simp only [Span.point] at cursorFits
  obtain ⟨before, untilCursor, fromCursor, after, parts, start, cursor, stop⟩ :=
    Text.exists_four_parts startFits cursorFits stopFits (by omega) (by omega)
  refine ⟨before, untilCursor, fromCursor, after, parts, start, cursor, stop, ?_⟩
  have left : Text.between editable.start request.cursor request.excerpt = untilCursor := by
    rw [parts, ← start, ← cursor, Text.between_append]
  have right : Text.between request.cursor editable.stop request.excerpt = fromCursor := by
    rw [parts, ← cursor, ← stop, ← Nat.add_assoc, ← Text.byteCount_append, ← List.append_assoc,
      Text.between_append]
  rw [← Except.ok.inj shows]
  have line : "\n```".toList = '\n' :: quotes := by
    decide
  simp only [left, right, line, fenced, excerptLead, fileStart, excerptTail, List.append_assoc]
  rfl

theorem excerptLead_eq (request : Request) (editable context : Span) :
    excerptLead request editable context =
      quotes ++ (request.path ++ '\n' :: (fileStart request context ++
        Text.between context.start editable.start request.excerpt)) := by
  simp only [excerptLead, List.append_assoc, List.cons_append, List.nil_append]

theorem quotes_free (member : marker ∈ markers) : ¬ marker <:+: quotes := by
  have plain : '<' ∉ quotes := by
    decide
  exact fun found => plain (found.subset (isTag_of_mem_markers member).bracket_mem)

/-- The front of the region has no more markers than the line for the start of the file. -/
theorem count_excerptLead (member : marker ∈ markers) (pathFree : Unmarked request.path)
    (excerptFree : Unmarked request.excerpt) :
    Text.count marker (excerptLead request editable context) =
      Text.count marker (fileStart request context) := by
  have inline := (isTag_of_mem_markers member).inline
  have starts : ∀ marker ∈ markers, Text.StartsBehind marker quotes := by
    decide +kernel
  have behindQuotes (rest : Text) : ¬ Text.Straddles marker quotes rest :=
    (starts marker member).not_straddles [] rest
  have behindFile (rest : Text) : ¬ Text.Straddles marker (fileStart request context) rest := by
    unfold fileStart
    split
    · exact inline.not_straddles_behind Marker.startOfFile rest
    · exact Text.not_straddles_nil_left _ _
  have shownFree : ¬ marker <:+: Text.between context.start editable.start request.excerpt :=
    fun found => excerptFree marker member (found.trans (Text.infix_between _ _ _))
  rw [excerptLead_eq, Text.count_append inline.1 (behindQuotes _), inline.count_line,
    Text.count_append inline.1 (behindFile _), count_of_free member (quotes_free member),
    count_of_free member (pathFree marker member), count_of_free member shownFree]
  omega

theorem count_fileStart_le (member : marker ∈ markers) (request : Request) (context : Span) :
    Text.count marker (fileStart request context) ≤ if marker = Marker.startOfFile then 1 else 0 := by
  have inline := (isTag_of_mem_markers member).inline
  unfold fileStart
  split
  · rw [inline.count_line, Text.count_nil, Nat.add_zero]
    split
    · rename_i same
      rw [same, Text.count_self (isTag_of_mem_markers startOfFile_mem).inline.1]
    · rename_i different
      rw [count_of_free member (not_infix_of_ne member startOfFile_mem different)]
  · exact Nat.zero_le _

theorem isLead_excerptLead (pathFree : Unmarked request.path)
    (excerptFree : Unmarked request.excerpt) : IsLead (excerptLead request editable context) := by
  have count {marker : Text} (member : marker ∈ markers) :
      Text.count marker (excerptLead request editable context) ≤
        if marker = Marker.startOfFile then 1 else 0 := by
    rw [count_excerptLead member pathFree excerptFree]
    exact count_fileStart_le member request context
  have free {marker : Text} (member : marker ∈ markers) (ordinary : marker ≠ Marker.startOfFile) :
      ¬ marker <:+: excerptLead request editable context := by
    have none := count member
    rw [if_neg ordinary] at none
    exact (Text.count_eq_zero_iff (isTag_of_mem_markers member).inline.1).mp (Nat.le_zero.mp none)
  have once := count startOfFile_mem
  rw [if_pos rfl] at once
  exact
    { cursor := free legacyCursor_mem (by decide)
      start := free regionStart_mem (by decide)
      stop := free regionEnd_mem (by decide)
      file := once }

theorem unmarked_excerptTail (excerptFree : Unmarked request.excerpt) :
    Unmarked (excerptTail request editable context) := by
  intro marker member
  rw [excerptTail, (isTag_of_mem_markers member).inline.infix_iff, not_or]
  exact ⟨fun found => excerptFree marker member (found.trans (Text.infix_between _ _ _)),
    quotes_free member⟩

/-- An excerpt that is sent back as it was shown reads as the editable text, with the cursor in its
place or without. -/
theorem echoed_excerpt_keeps_editable_text
    (succeeds : fencedExcerpt request editable context = .ok excerpt)
    (pathFree : Unmarked request.path) (excerptFree : Unmarked request.excerpt) :
    ∃ before untilCursor fromCursor after,
      request.excerpt = before ++ (untilCursor ++ (fromCursor ++ after)) ∧
      before.byteCount = editable.start ∧
      before.byteCount + untilCursor.byteCount = request.cursor ∧
      before.byteCount + (untilCursor.byteCount + fromCursor.byteCount) = editable.stop ∧
      regionWithCursor excerpt = untilCursor ++ Marker.cursor ++ fromCursor ∧
      extract excerpt = .ok (untilCursor ++ fromCursor) := by
  obtain ⟨before, untilCursor, fromCursor, after, parts, start, cursor, stop, rfl⟩ :=
    exists_parts_of_fencedExcerpt succeeds
  have leadIs : IsLead (excerptLead request editable context) :=
    isLead_excerptLead pathFree excerptFree
  have tailFree : Unmarked (excerptTail request editable context) :=
    unmarked_excerptTail excerptFree
  have innerFree : Unmarked (untilCursor ++ fromCursor) := by
    intro marker member found
    have inside : untilCursor ++ fromCursor <:+: request.excerpt :=
      ⟨before, after, by simp only [parts, List.append_assoc]⟩
    exact excerptFree marker member (found.trans inside)
  have lenient := regionWithCursor_fenced leadIs innerFree tailFree
  rw [← flatten_pair] at innerFree
  have strict := extract_fenced leadIs innerFree tailFree
  rw [flatten_pair] at strict
  exact ⟨before, untilCursor, fromCursor, after, parts, start, cursor, stop, lenient, strict⟩

end Excerpt

/-- A file that starts with an empty line, with the cursor in front of a character of two bytes. -/
def echoSample : Request :=
  { Request.sample with
    excerpt := "\né\n\n".toList
    startRow := some 0
    cursor := 1 }

/-- The newlines at both ends of the region are its own. -/
theorem echoed_excerpt_keeps_editable_text_of_sample :
    ∃ excerpt before untilCursor fromCursor after,
      fencedExcerpt echoSample { start := 0, stop := 4 } { start := 0, stop := 5 } = .ok excerpt ∧
      echoSample.excerpt = before ++ (untilCursor ++ (fromCursor ++ after)) ∧
      before.byteCount = 0 ∧ before.byteCount + untilCursor.byteCount = 1 ∧
      before.byteCount + (untilCursor.byteCount + fromCursor.byteCount) = 4 ∧
      regionWithCursor excerpt = untilCursor ++ Marker.cursor ++ fromCursor ∧
      extract excerpt = .ok (untilCursor ++ fromCursor) := by
  have pathFree : Unmarked echoSample.path := by
    decide
  have excerptFree : Unmarked echoSample.excerpt := by
    decide
  obtain ⟨before, untilCursor, fromCursor, after, parts⟩ := echoed_excerpt_keeps_editable_text
    (show fencedExcerpt echoSample { start := 0, stop := 4 } { start := 0, stop := 5 } = .ok _ from rfl)
    pathFree excerptFree
  exact ⟨_, before, untilCursor, fromCursor, after, rfl, parts⟩

end NextEdit.Legacy
