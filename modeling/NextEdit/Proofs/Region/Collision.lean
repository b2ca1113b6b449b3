import NextEdit.Proofs.Prompt.Assembly
import NextEdit.Proofs.Region.Blocks
import NextEdit.Proofs.Region.Cut
import NextEdit.Proofs.Text.Scan

/-! What an excerpt adds to the special tokens of a prompt. A clean excerpt adds no tag, but a text of
it can make up a merge marker with the bracket in front of it or the newline that closes it. -/
namespace NextEdit

namespace Region

/-- The text of a prompt that is never cut. -/
def mandatory (region : Region) (format : Format) (path : Text) : Text :=
  region.opening format ++ region.closing path format

/-- The blocks in front of the context sections. -/
def openingBlocks (region : Region) : Format → List Block
  | .seedCoder => [⟨Marker.seedSuffix, Text.closeLine region.after⟩, ⟨Marker.seedPrefix, []⟩]
  | _ => []

/-- The blocks behind the file line. -/
def closingBlocks (region : Region) : Format → List Block
  | .seedCoder => region.blocks .seedCoder ++ [⟨Marker.seedMiddle, []⟩]
  | format => region.blocks format

/-- The texts of a region between the merge markers of a layout, with the bracket in front of them and
closed where the layout closes them. In the seed-coder format the text before the region stands
behind a newline. -/
def bordered (region : Region) : Format → List Text
  | .seedCoder => ['>' :: Text.closeLine region.after, '>' :: Text.closeLine region.fromCursor]
  | _ =>
    ['>' :: region.before, '>' :: Text.closeLine region.after,
      '>' :: Text.closeLine region.fromCursor]

theorem opening_eq_blocks (region : Region) (format : Format) :
    region.opening format = (region.openingBlocks format).flatMap Block.write := by
  have unended : Text.endsLine Marker.seedSuffix = false := by
    decide
  cases format <;>
    simp only [opening, openingBlocks, seedSuffixSection, Block.write, List.flatMap_cons,
      List.flatMap_nil, List.append_nil, Text.closeLine_append_of_unended unended]

theorem closing_eq_blocks (region : Region) (format : Format) (path : Text) :
    region.closing path format =
      format.fileLine path ++ (region.closingBlocks format).flatMap Block.write := by
  cases format <;>
    simp only [closing, closingBlocks, layout, body_eq_blocks, List.flatMap_append,
      List.flatMap_cons, List.flatMap_nil, Block.write, List.append_assoc, List.append_nil]

namespace Block

/-- An occurrence of a token lies in one block. -/
theorem count_flatMap_write (full : token ≠ []) (blocks : List Block)
    (fences : ∀ block ∈ blocks.tail, Text.EndsBefore token block.marker) :
    Text.count token (blocks.flatMap write) = Text.countEach token (blocks.map write) := by
  induction blocks with
  | nil => rfl
  | cons block rest ih =>
    have apart : ¬ Text.Straddles token block.write (rest.flatMap write) := by
      cases rest with
      | nil => exact Text.not_straddles_nil_right _ _
      | cons next rest =>
        simp only [List.flatMap_cons, write, List.append_assoc]
        exact (fences next List.mem_cons_self).not_straddles _ _
    have later := ih fun block member => fences block (List.mem_of_mem_tail member)
    rw [List.flatMap_cons, Text.count_append full apart, later, List.map_cons, Text.countEach]

end Block

/-- A text without the token adds nothing to what the marker in front of it counts. -/
theorem count_marker_append_of_free (full : token ≠ [])
    (starts : marker = [] ∨ Text.StartsBehind token marker) (free : ¬ token <:+: text) :
    Text.count token (marker ++ text) = Text.count token marker := by
  have apart : ¬ Text.Straddles token marker text := by
    rcases starts with empty | starts
    · rw [empty]
      exact Text.not_straddles_nil_left _ _
    · exact starts.not_straddles [] _
  rw [Text.count_append full apart, (Text.count_eq_zero_iff full).mpr free, Nat.add_zero]

section Count

variable {region : Region} {format : Format}

/-- In front of a text stands a token that layouts write; only the first text behind the file line can
do without. -/
theorem shown_markers (region : Region) (format : Format) :
    (∀ block ∈ region.openingBlocks format, block.marker ∈ Format.written) ∧
      (∀ block ∈ (region.closingBlocks format).tail, block.marker ∈ Format.written) ∧
      ∀ block ∈ region.closingBlocks format, block.marker = [] ∨ block.marker ∈ Format.written := by
  cases format <;>
    simp [openingBlocks, closingBlocks, blocks, Format.written, Format.tags, Format.fimReserved,
      Format.seedReserved]

/-- The tokens of the mandatory text are those of the file line and of each block. -/
theorem count_mandatory (member : token ∈ Format.vocabulary) (path : Text) :
    Text.count token (region.mandatory format path) = Text.count token (format.fileLine path) +
      Text.countEach token
        ((region.openingBlocks format ++ region.closingBlocks format).map Block.write) := by
  have full := Format.ne_nil_of_mem member
  obtain ⟨opens, closes, _⟩ := shown_markers region format
  have fileMarker : format.fileMarker ∈ Format.written :=
    .tail _ (.tail _ format.fileMarker_mem_tags)
  have file (front rest : Text) : ¬ Text.Straddles token front (format.fileLine path ++ rest) := by
    simp only [Format.fileLine, List.append_assoc]
    exact (Format.endsBefore_written member fileMarker).not_straddles _ _
  have line (rest : Text) : ¬ Text.Straddles token (format.fileLine path) rest :=
    (Format.startsBehind_line member (format.fileMarker ++ path)).not_straddles [] rest
  have inFront := Block.count_flatMap_write full (region.openingBlocks format) fun block shows =>
    Format.endsBefore_written member (opens block (List.mem_of_mem_tail shows))
  have behind := Block.count_flatMap_write full (region.closingBlocks format) fun block shows =>
    Format.endsBefore_written member (closes block shows)
  rw [mandatory, opening_eq_blocks, closing_eq_blocks, Text.count_append full (file _ _),
    Text.count_append full (line _), inFront, behind, List.map_append, Text.countEach_append]
  omega

theorem shown_text_spared (spares : format.Spares region.context) (member : token ∈ format.reserved)
    (tag : token ∈ Format.tags) :
    ∀ block ∈ region.openingBlocks format ++ region.closingBlocks format, ¬ token <:+: block.text := by
  have inLayout : ∀ block ∈ region.blocks format, ¬ token <:+: block.text := fun block shows =>
    text_spared spares member tag _ (List.mem_map_of_mem shows)
  obtain ⟨_, _, _, after⟩ := spares_parts spares
  have afterFree : ¬ token <:+: Text.closeLine region.after :=
    (Format.isTag_of_mem tag).inline.free_closeLine (after token member)
  have nothing : ¬ token <:+: [] := format.spares_nil token member
  cases format
  case seedCoder =>
    simp only [openingBlocks, closingBlocks, List.forall_mem_append, List.forall_mem_cons]
    exact ⟨⟨afterFree, nothing, List.forall_mem_nil _⟩, inLayout, nothing, List.forall_mem_nil _⟩
  all_goals exact inLayout

/-- A tag stands in the mandatory text as often, whatever clean region is shown. -/
theorem count_mandatory_of_tag {first second : Region} (spares : format.Spares first.context)
    (otherSpares : format.Spares second.context) (member : token ∈ format.reserved)
    (tag : token ∈ Format.tags) (path : Text) :
    Text.count token (first.mandatory format path) =
      Text.count token (second.mandatory format path) := by
  have known := Format.mem_vocabulary member
  have markersOnly {region : Region} (spares : format.Spares region.context) :
      Text.countEach token
          ((region.openingBlocks format ++ region.closingBlocks format).map Block.write) =
        Text.countEach token
          ((region.openingBlocks format ++ region.closingBlocks format).map Block.marker) := by
    obtain ⟨opens, _, closes⟩ := shown_markers region format
    refine Text.countEach_map_congr fun block shows => ?_
    have marker : block.marker = [] ∨ block.marker ∈ Format.written :=
      (List.mem_append.mp shows).elim (fun inFront => .inr (opens block inFront)) (closes block)
    have starts := marker.imp_right (Format.startsBehind_written tag)
    exact count_marker_append_of_free (Format.ne_nil_of_mem known) starts
      (shown_text_spared spares member tag block shows)
  have sameMarkers :
      (first.openingBlocks format ++ first.closingBlocks format).map Block.marker =
        (second.openingBlocks format ++ second.closingBlocks format).map Block.marker := by
    cases format <;> rfl
  rw [count_mandatory known, count_mandatory known, markersOnly spares, markersOnly otherSpares,
    sameMarkers]

/-- Of a tag in front of a text, a merge marker can take the closing bracket only. -/
theorem count_behind_tag (merge : token ∈ Format.mergeReserved) (tagMember : tag ∈ Format.tags)
    (text : Text) : Text.count token (tag ++ text) = Text.count token ('>' :: text) := by
  have full := Format.ne_nil_of_mem (List.mem_append_right _ merge)
  obtain ⟨word, rfl, starts, free⟩ := Format.exists_word_of_tag tagMember merge
  have apart : ¬ Text.Straddles token word (['>'] ++ text) := starts.not_straddles [] _
  rw [List.append_assoc, Text.count_append full apart, (Text.count_eq_zero_iff full).mpr free,
    Nat.zero_add, List.singleton_append]

/-- Besides those that the layout writes, the merge markers are those of the bordered texts. -/
theorem count_shown_of_merge (spares : format.Spares region.context)
    (member : token ∈ format.reserved) (merge : token ∈ Format.mergeReserved) :
    Text.countEach token
        ((region.openingBlocks format ++ region.closingBlocks format).map Block.write) =
      Text.count token Marker.mergeStart + Text.count token Marker.mergeSeparator +
        Text.countEach token (region.bordered format) := by
  have known := Format.mem_vocabulary member
  have full := Format.ne_nil_of_mem known
  obtain ⟨before, untilCursor, _, _⟩ := spares_parts spares
  have bare : Text.count token ['>'] = 0 := by
    have table : ∀ token ∈ Format.mergeReserved, Text.count token ['>'] = 0 := by
      decide
    exact table token merge
  have beforeCount : Text.count token region.before = 0 :=
    (Text.count_eq_zero_iff full).mpr (before token member)
  have untilCount : Text.count token (Marker.mergeStart ++ region.untilCursor) =
      Text.count token Marker.mergeStart :=
    count_marker_append_of_free full (.inr (Format.startsBehind_merge known (.head _)))
      (untilCursor token member)
  have fromCount : Text.count token
      ('>' :: (Text.closeLine region.fromCursor ++ Marker.mergeSeparator)) =
      Text.count token ('>' :: Text.closeLine region.fromCursor) +
        Text.count token Marker.mergeSeparator := by
    rw [← List.cons_append]
    exact Text.count_append full (Format.not_straddles_separator known _)
  have behind {tag : Text} (tagMember : tag ∈ Format.tags) (text : Text) :
      Text.count token (tag ++ text) = Text.count token ('>' :: text) :=
    count_behind_tag merge tagMember text
  have cursor := behind (show Marker.cursor ∈ Format.tags by simp [Format.tags])
    (Text.closeLine region.fromCursor ++ Marker.mergeSeparator)
  cases format
  case middleAtEnd | ordered | mediumRegion => exact absurd merge (Format.not_merge_of_fim member)
  case mergeMarkers | mergeBeforeSuffix | prefill =>
    have fim {tag : Text} (tagMember : tag ∈ Format.fimReserved) := behind
      (List.mem_append_left _ (List.mem_append_left Format.seedReserved tagMember))
    have inFront := fim (show Marker.fimPrefix ∈ _ by simp [Format.fimReserved]) region.before
    have inBack := fim (show Marker.fimSuffix ∈ _ by simp [Format.fimReserved])
      (Text.closeLine region.after)
    have middle := fim (show Marker.fimMiddle ∈ _ by simp [Format.fimReserved]) []
    simp only [openingBlocks, closingBlocks, blocks, Block.write, bordered, List.map_cons,
      List.nil_append, List.map_nil, Text.countEach, inFront, inBack, middle, cursor, bare,
      untilCount, fromCount]
    omega
  case seedCoder =>
    have seed {tag : Text} (tagMember : tag ∈ Format.seedReserved) := behind
      (List.mem_append_left _ (List.mem_append_right Format.fimReserved tagMember))
    have inBack := seed (show Marker.seedSuffix ∈ _ by simp [Format.seedReserved])
      (Text.closeLine region.after)
    have opening := seed (show Marker.seedPrefix ∈ _ by simp [Format.seedReserved]) []
    have middle := seed (show Marker.seedMiddle ∈ _ by simp [Format.seedReserved]) []
    simp only [openingBlocks, closingBlocks, blocks, Block.write, bordered, List.map_cons,
      List.nil_append, List.cons_append, List.map_nil, Text.countEach, inBack, opening, middle,
      cursor, bare, beforeCount, untilCount, fromCount]
    omega

theorem count_mandatory_of_merge (spares : format.Spares region.context)
    (member : token ∈ format.reserved) (merge : token ∈ Format.mergeReserved) (path : Text) :
    Text.count token (region.mandatory format path) = Text.count token (format.fileLine path) +
      (Text.count token Marker.mergeStart + Text.count token Marker.mergeSeparator +
        Text.countEach token (region.bordered format)) := by
  rw [count_mandatory (Format.mem_vocabulary member), count_shown_of_merge spares member merge]

end Count

/-- The region of an empty excerpt. -/
def empty : Region where
  before := []
  untilCursor := []
  fromCursor := []
  after := []

theorem eq_empty_of_context {region : Region} (nothing : region.context = []) : region = empty := by
  obtain ⟨before, untilCursor, fromCursor, after⟩ := region
  simp only [context, editableText, List.append_eq_nil_iff] at nothing
  obtain ⟨⟨rfl, rfl, rfl⟩, rfl⟩ := nothing
  rfl

/-- Brackets and newlines alone make up no marker. -/
theorem bordered_empty (merge : token ∈ Format.mergeReserved) (format : Format) :
    Text.countEach token (empty.bordered format) = 0 := by
  have table : ∀ format ∈ Format.all, ∀ token ∈ Format.mergeReserved,
      Text.countEach token (empty.bordered format) = 0 := by
    decide +kernel
  exact table format format.mem_all token merge

end Region

namespace Request

/-- A clean excerpt adds no tag to the mandatory text of a prompt, and it adds a merge marker just
where a bordered text of its region holds one. -/
theorem mandatory_tokens_of_clean_excerpt {request blank : Request} {region baseline : Region}
    {format : Format} (resolves : request.region format = .ok region)
    (clean : format.collisions request.excerpt = [])
    (blankResolves : blank.region format = .ok baseline) (noExcerpt : blank.excerpt = [])
    (member : token ∈ format.reserved) (path : Text) :
    (token ∉ Format.mergeReserved →
      Text.count token (region.mandatory format path) =
        Text.count token (baseline.mandatory format path)) ∧
    (token ∈ Format.mergeReserved →
      (Text.count token (region.mandatory format path) =
          Text.count token (baseline.mandatory format path) ↔
        ∀ text ∈ region.bordered format, ¬ token <:+: text)) := by
  have spares : format.Spares region.context :=
    (Format.collisions_eq_nil_iff.mp clean).of_part (context_infix_of_region resolves)
  have nothing : baseline.context = [] := by
    have part := context_infix_of_region blankResolves
    rw [noExcerpt] at part
    exact List.infix_nil.mp part
  have blankSpares : format.Spares baseline.context := nothing ▸ format.spares_nil
  constructor
  · intro single
    exact Region.count_mandatory_of_tag spares blankSpares member
      (Format.mem_tags_of_single member single) path
  · intro merge
    have none := Region.bordered_empty merge format
    rw [← Region.eq_empty_of_context nothing] at none
    have full := Format.ne_nil_of_mem (Format.mem_vocabulary member)
    rw [Region.count_mandatory_of_merge spares member merge,
      Region.count_mandatory_of_merge blankSpares member merge, none, Nat.add_left_cancel_iff,
      Nat.add_left_cancel_iff, Text.countEach_eq_zero_iff full]

/-- The sample with another excerpt, all of it editable behind the cursor. -/
def sampleOf (excerpt : Text) : Request :=
  { sample with
    excerpt
    editable := { start := 0, stop := excerpt.byteCount }
    cursor := 0 }

/-- A row of signs that is not long enough stays what it is when its line is closed. -/
theorem mandatory_tokens_of_clean_excerpt_with_short_row :
    let region : Region := ⟨[], [], "a\n======".toList, []⟩
    Text.count Marker.mergeSeparator (region.mandatory .prefill "a.py".toList) =
        Text.count Marker.mergeSeparator (Region.empty.mandatory .prefill "a.py".toList) ∧
      Text.count Marker.fimSuffix (region.mandatory .prefill "a.py".toList) =
        Text.count Marker.fimSuffix (Region.empty.mandatory .prefill "a.py".toList) := by
  intro region
  have resolves : (sampleOf "a\n======".toList).region .prefill = .ok region := rfl
  have blankResolves : (sampleOf []).region .prefill = .ok Region.empty := rfl
  have clean : Format.collisions .prefill "a\n======".toList = [] := by
    decide
  have free : ∀ text ∈ region.bordered .prefill, ¬ Marker.mergeSeparator <:+: text := by
    decide
  have merge := mandatory_tokens_of_clean_excerpt resolves clean blankResolves rfl
    (show Marker.mergeSeparator ∈ _ by decide) "a.py".toList
  have tag := mandatory_tokens_of_clean_excerpt resolves clean blankResolves rfl
    (show Marker.fimSuffix ∈ _ by decide) "a.py".toList
  exact ⟨(merge.2 (by decide)).mpr free, tag.1 (by decide)⟩

/-- The newline that closes a line can complete a separator that a clean excerpt has the signs of. -/
theorem closing_newline_completes_separator :
    let request := sampleOf "=======".toList
    let region : Region := ⟨[], [], "=======".toList, []⟩
    Format.collisions .mergeMarkers request.excerpt = [] ∧
      request.region .mergeMarkers = .ok region ∧ '\n' ∉ request.path ∧
      Format.collisions .mergeMarkers request.path = [] ∧
      (sampleOf []).region .mergeMarkers = .ok Region.empty ∧
      Text.count Marker.mergeSeparator (region.mandatory .mergeMarkers request.path) = 2 ∧
      Text.count Marker.mergeSeparator (Region.empty.mandatory .mergeMarkers request.path) = 1 := by
  refine ⟨?_, rfl, ?_, ?_, rfl, ?_, ?_⟩ <;> decide +kernel

end Request

end NextEdit
