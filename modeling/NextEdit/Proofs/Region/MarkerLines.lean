import NextEdit.Proofs.Text.Lines
import NextEdit.Region.Layout

/-! The lines of the markers in a section. A marker that follows a text of the region begins a line
wherever the section closes that text with a newline. The text before the region is closed in two
formats only; in the others the next marker stands behind whatever that text ends with. -/
namespace NextEdit

namespace Region

/-- A marker, the text of the region that it opens, and what is written between that text and the next
marker. -/
structure Segment where
  marker : Text
  text : Text
  closing : Text

namespace Segment

def write (segment : Segment) : Text :=
  segment.marker ++ (segment.text ++ segment.closing)

/-- A text that the next marker follows as it is. -/
def bare (marker text : Text) : Segment where
  marker
  text
  closing := []

/-- A text whose line is closed. -/
def closed (marker text : Text) : Segment where
  marker
  text
  closing := if (marker ++ text).endsLine then [] else ['\n']

theorem write_bare (marker text : Text) : (bare marker text).write = marker ++ text := by
  rw [write, bare, List.append_nil]

theorem write_closed (marker text : Text) :
    (closed marker text).write = Text.closeLine (marker ++ text) := by
  rw [Text.closeLine_eq_append, List.append_assoc]
  rfl

/-- A closed text ends in its own newline or in one that is added. -/
theorem closing_closed (marker : Text) {text : Text} (shown : text ≠ []) :
    (closed marker text).closing = if text.endsLine then [] else ['\n'] := by
  rw [closed, Text.endsLine_append marker shown]

end Segment

/-- The texts of the region in the order of a section, each behind the marker that opens it. The text
before the region comes first in all formats. -/
def outline (region : Region) : Format → List (Text × Text)
  | .middleAtEnd =>
    [(Marker.fimPrefix ++ ['\n'], region.before), (Marker.fimSuffix ++ ['\n'], region.after),
      (Marker.fimMiddle ++ "current\n".toList, region.marked)]
  | .ordered | .mediumRegion =>
    [(Marker.fimPrefix ++ ['\n'], region.before),
      (Marker.fimMiddle ++ "current\n".toList, region.marked),
      (Marker.fimSuffix ++ ['\n'], region.after)]
  | .mergeMarkers =>
    [(Marker.fimPrefix, region.before), (Marker.fimSuffix, region.after),
      (Marker.fimMiddle ++ Marker.mergeStart, region.marked)]
  | .mergeBeforeSuffix | .prefill =>
    [(Marker.fimPrefix, region.before), (Marker.mergeStart, region.marked),
      (Marker.mergeSeparator ++ Marker.fimSuffix, region.after)]
  | .seedCoder => [([], region.before), (Marker.mergeStart, region.marked)]

/-- The marker that ends a section. -/
def lastMarker : Format → Text
  | .middleAtEnd | .ordered | .mediumRegion => updatedLine
  | .mergeMarkers | .seedCoder => Marker.mergeSeparator
  | .mergeBeforeSuffix | .prefill => Marker.fimMiddle

/-- Whether a format closes the text before the region. -/
def closesBefore : Format → Bool
  | .ordered | .mediumRegion => true
  | _ => false

/-- The outline as it is written: only the text before the region may stay open. -/
def segments (region : Region) (format : Format) : List Segment :=
  match region.outline format with
  | [] => []
  | (marker, before) :: rest =>
    (if closesBefore format then .closed marker before else .bare marker before) ::
      rest.map fun (marker, text) => .closed marker text

theorem map_segments (region : Region) (format : Format) :
    (region.segments format).map (fun segment => (segment.marker, segment.text)) =
      region.outline format := by
  cases format <;> rfl

/-- A section is its segments between the file line and the last marker. -/
theorem layout_eq_segments (region : Region) (format : Format) (path : Text) :
    region.layout format path = format.fileLine path ++
      ((region.segments format).flatMap Segment.write ++ lastMarker format) := by
  have shown : Marker.fimSuffix ++ region.after ≠ [] :=
    List.append_ne_nil_of_left_ne_nil (by decide) _
  have behind := Text.closeLine_append Marker.mergeSeparator shown
  cases format <;>
    simp only [layout, body, mergeBlock, currentBlock, segments, outline, closesBefore, lastMarker,
      Segment.write_bare, Segment.write_closed, List.map_cons, List.map_nil, List.flatMap_cons,
      List.flatMap_nil, List.append_assoc, List.append_nil, List.nil_append, if_true,
      Bool.false_eq_true, if_false, behind]

/-- Behind the first segment, and in a format that closes that one too, all segments are closed. -/
theorem segment_eq_closed {region : Region} {format : Format} {earlier later : List Segment}
    {segment : Segment} (parts : region.segments format = earlier ++ segment :: later)
    (closes : earlier ≠ [] ∨ closesBefore format = true) :
    segment = .closed segment.marker segment.text := by
  unfold segments at parts
  split at parts
  · exact absurd parts.symm (by simp)
  · rename_i marker before rest outlined
    cases earlier with
    | nil =>
      rw [if_pos (closes.resolve_left fun full => full rfl)] at parts
      rw [← (List.cons.inj parts).1]
      rfl
    | cons first earlier =>
      have member : segment ∈ rest.map fun (marker, text) => Segment.closed marker text := by
        rw [(List.cons.inj parts).2]
        exact List.mem_append_right earlier List.mem_cons_self
      obtain ⟨_, _, rfl⟩ := List.mem_map.mp member
      rfl

/-- A format that does not close the text before the region writes it as it is. -/
theorem segment_eq_bare {region : Region} {format : Format} {first : Segment} {later : List Segment}
    (parts : region.segments format = first :: later) (opens : closesBefore format = false) :
    first = .bare first.marker first.text := by
  unfold segments at parts
  split at parts
  · cases parts
  · rw [opens, if_neg Bool.false_ne_true] at parts
    rw [← (List.cons.inj parts).1]
    rfl

/-- In a section, every marker behind a closed text begins a line, and what closes that text is its own
newline or exactly one more. Only the text before the region is left as it is, in the formats that do
not close it: there the next marker begins a line if that text ends one. The section of the text after
the region is closed in the same way. -/
theorem markers_begin_lines (region : Region) (format : Format) (path : Text) :
    (∃ segments : List Segment,
      region.layout format path =
        format.fileLine path ++ (segments.flatMap Segment.write ++ lastMarker format) ∧
      segments.map (fun segment => (segment.marker, segment.text)) = region.outline format ∧
      (∀ earlier segment later, segments = earlier ++ segment :: later →
        (earlier ≠ [] ∨ closesBefore format = true) →
          (format.fileLine path ++ (earlier ++ [segment]).flatMap Segment.write).endsLine = true ∧
          (segment.text ≠ [] →
            segment.closing = if segment.text.endsLine then [] else ['\n'])) ∧
      (∀ first later, segments = first :: later → closesBefore format = false →
        first.closing = [] ∧
        (first.text ≠ [] →
          (format.fileLine path ++ first.write).endsLine = first.text.endsLine))) ∧
    region.seedSuffixSection =
      Marker.seedSuffix ++ (region.after ++ if region.after.endsLine then [] else ['\n']) ∧
    region.seedSuffixSection.endsLine = true := by
  refine ⟨⟨region.segments format, layout_eq_segments region format path,
    map_segments region format, ?_, ?_⟩, ?_, Text.endsLine_closeLine _⟩
  · intro earlier segment later parts closes
    have closed := segment_eq_closed parts closes
    constructor
    · have ends : segment.write.endsLine = true := by
        rw [closed, Segment.write_closed]
        exact Text.endsLine_closeLine _
      rw [List.flatMap_append, List.flatMap_singleton, ← List.append_assoc,
        Text.endsLine_append _ ?_, ends]
      rintro empty
      rw [empty] at ends
      cases ends
    · intro shown
      rw [closed]
      exact Segment.closing_closed _ shown
  · intro first later parts opens
    have bare := segment_eq_bare parts opens
    constructor
    · rw [bare]
      rfl
    · intro shown
      rw [bare, Segment.write_bare, ← List.append_assoc]
      exact Text.endsLine_append _ shown
  · have unended : Text.endsLine Marker.seedSuffix = false := by decide
    rw [seedSuffixSection, Text.closeLine_append_of_unended unended, Text.closeLine_eq_append]

/-- A marker stands directly behind the text before the region, and that text has left its line open. -/
def InMidLine (region : Region) (format : Format) (path marker : Text) : Prop :=
  ∃ front back, region.layout format path = front ++ (region.before ++ (marker ++ back)) ∧
    (front ++ region.before).endsLine = false

/-- A region that starts in the middle of a line has the next marker there, in the five formats that do
not close the text before it. -/
theorem marker_in_mid_line :
    let region : Region := ⟨"x = ".toList, "1".toList, [], " + y\n".toList⟩
    region.InMidLine .middleAtEnd "p".toList Marker.fimSuffix ∧
      region.InMidLine .mergeMarkers "p".toList Marker.fimSuffix ∧
      region.InMidLine .mergeBeforeSuffix "p".toList Marker.mergeStart ∧
      region.InMidLine .prefill "p".toList Marker.mergeStart ∧
      region.InMidLine .seedCoder "p".toList Marker.mergeStart := by
  refine ⟨?_, ?_, ?_, ?_, ?_⟩
  · exact ⟨"<|file_sep|>p\n<|fim_prefix|>\n".toList,
      "\n + y\n<|fim_middle|>current\n1<|user_cursor|>\n<|fim_middle|>updated\n".toList,
      by decide +kernel, rfl⟩
  · exact ⟨"<|file_sep|>p\n<|fim_prefix|>".toList,
      " + y\n<|fim_middle|><<<<<<< CURRENT\n1<|user_cursor|>\n=======\n".toList,
      by decide +kernel, rfl⟩
  · exact ⟨"<|file_sep|>p\n<|fim_prefix|>".toList,
      "1<|user_cursor|>\n=======\n<|fim_suffix|> + y\n<|fim_middle|>".toList,
      by decide +kernel, rfl⟩
  · exact ⟨"<|file_sep|>p\n<|fim_prefix|>".toList,
      "1<|user_cursor|>\n=======\n<|fim_suffix|> + y\n<|fim_middle|>".toList,
      by decide +kernel, rfl⟩
  · exact ⟨"<filename>p\n".toList, "1<|user_cursor|>\n=======\n".toList, by decide +kernel, rfl⟩

end Region

end NextEdit
