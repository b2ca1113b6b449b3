import NextEdit.Proofs.Format.Reserved
import NextEdit.Proofs.Text.Lines
import NextEdit.Region.Layout

/-! Layouts as sequences of blocks, each a marker and the text behind it. Where no text holds the
marker of the next block, what the blocks write determines them. A context without special tokens
leaves every text of its blocks without tags. -/
namespace NextEdit.Region

/-- A marker of a layout and the text behind it, up to the next marker. -/
@[ext]
structure Block where
  marker : Text
  text : Text

namespace Block

def write (block : Block) : Text :=
  block.marker ++ block.text

/-- The text of the block does not hold the marker of the next one. -/
def Precedes (block next : Block) : Prop :=
  ¬ next.marker <:+: block.text

/-- Behind the same marker and in front of the same next marker, the text of a block is read off
what is written. -/
theorem Precedes.parts_eq {block next other otherNext : Block} (first : block.Precedes next)
    (second : other.Precedes otherNext) (single : Text.EndsBefore next.marker next.marker)
    (markers : next.marker = otherNext.marker)
    (same : block.text ++ (next.write ++ rest) = other.text ++ (otherNext.write ++ others)) :
    block.text = other.text ∧ next.write ++ rest = otherNext.write ++ others := by
  simp only [Precedes, write, ← markers, List.append_assoc] at second same ⊢
  obtain ⟨texts, later⟩ := Text.append_marker_inj single first second same
  exact ⟨texts, congrArg _ later⟩

/-- Blocks with the same markers that write the same text are the same. -/
theorem eq_of_write_eq {first second : List Block}
    (markers : first.map marker = second.map marker)
    (single : ∀ block ∈ first.tail, Text.EndsBefore block.marker block.marker)
    (firstOrder : first.IsChain Precedes) (secondOrder : second.IsChain Precedes)
    (same : first.flatMap write = second.flatMap write) : first = second := by
  induction first generalizing second with
  | nil => exact (List.map_eq_nil_iff.mp markers.symm).symm
  | cons block rest ih =>
    cases second with
    | nil => cases markers
    | cons other others =>
      obtain ⟨heads, laterMarkers⟩ := List.cons.inj markers
      rw [List.flatMap_cons, List.flatMap_cons, write, write, heads, List.append_assoc,
        List.append_assoc] at same
      have behind := List.append_cancel_left same
      cases rest with
      | nil =>
        cases List.map_eq_nil_iff.mp laterMarkers.symm
        rw [Block.ext heads (List.append_cancel_right behind)]
      | cons next rest =>
        cases others with
        | nil => cases laterMarkers
        | cons otherNext others =>
          obtain ⟨firstLink, firstOrder⟩ := List.isChain_cons_cons.mp firstOrder
          obtain ⟨secondLink, secondOrder⟩ := List.isChain_cons_cons.mp secondOrder
          obtain ⟨nextSingle, laterSingle⟩ := List.forall_mem_cons.mp single
          obtain ⟨texts, later⟩ :=
            firstLink.parts_eq secondLink nextSingle (List.cons.inj laterMarkers).1 behind
          rw [Block.ext heads texts, ih laterMarkers laterSingle firstOrder secondOrder later]

end Block

/-- What a layout writes behind the file line. In the seed-coder format the text before the region
follows that line without a marker. -/
def blocks (region : Region) : Format → List Block
  | .middleAtEnd =>
    [⟨Marker.fimPrefix, '\n' :: region.before⟩,
      ⟨Marker.fimSuffix, Text.closeLine ('\n' :: region.after)⟩,
      ⟨Marker.fimMiddle, "current\n".toList ++ region.untilCursor⟩,
      ⟨Marker.cursor, Text.closeLine region.fromCursor⟩,
      ⟨Marker.fimMiddle, "updated\n".toList⟩]
  | .ordered | .mediumRegion =>
    [⟨Marker.fimPrefix, Text.closeLine ('\n' :: region.before)⟩,
      ⟨Marker.fimMiddle, "current\n".toList ++ region.untilCursor⟩,
      ⟨Marker.cursor, Text.closeLine region.fromCursor⟩,
      ⟨Marker.fimSuffix, Text.closeLine ('\n' :: region.after)⟩,
      ⟨Marker.fimMiddle, "updated\n".toList⟩]
  | .mergeMarkers =>
    [⟨Marker.fimPrefix, region.before⟩,
      ⟨Marker.fimSuffix, Text.closeLine region.after⟩,
      ⟨Marker.fimMiddle, []⟩,
      ⟨Marker.mergeStart, region.untilCursor⟩,
      ⟨Marker.cursor, Text.closeLine region.fromCursor ++ Marker.mergeSeparator⟩]
  | .mergeBeforeSuffix | .prefill =>
    [⟨Marker.fimPrefix, region.before⟩,
      ⟨Marker.mergeStart, region.untilCursor⟩,
      ⟨Marker.cursor, Text.closeLine region.fromCursor ++ Marker.mergeSeparator⟩,
      ⟨Marker.fimSuffix, Text.closeLine region.after⟩,
      ⟨Marker.fimMiddle, []⟩]
  | .seedCoder =>
    [⟨[], region.before⟩,
      ⟨Marker.mergeStart, region.untilCursor⟩,
      ⟨Marker.cursor, Text.closeLine region.fromCursor ++ Marker.mergeSeparator⟩]

/-- The line stays open up to the cursor, so what closes it is behind the cursor. -/
theorem closeLine_marked (lead : Text) (region : Region) :
    Text.closeLine (lead ++ region.marked) =
      lead ++ region.untilCursor ++ Marker.cursor ++ Text.closeLine region.fromCursor := by
  have unended : Text.endsLine (lead ++ region.untilCursor ++ Marker.cursor) = false := by
    rw [Text.endsLine_append _ (by decide)]
    decide
  rw [marked, ← Text.closeLine_append_of_unended unended]
  simp only [List.append_assoc]

/-- The layout behind the file line is what its blocks write. -/
theorem body_eq_blocks (region : Region) (format : Format) :
    region.body format = (region.blocks format).flatMap Block.write := by
  have below (tag text : Text) :
      Text.closeLine (tag ++ ['\n'] ++ text) = tag ++ Text.closeLine ('\n' :: text) := by
    rw [List.append_assoc]
    exact Text.closeLine_append _ (List.cons_ne_nil _ _)
  have unended : Text.endsLine Marker.fimSuffix = false := by decide
  have beside := Text.closeLine_append_of_unended unended region.after
  cases format <;>
    simp only [body, mergeBlock, currentBlock, updatedLine, closeLine_marked, below, beside] <;>
    simp only [blocks, Block.write, List.flatMap_cons, List.flatMap_nil, List.append_assoc,
      List.append_nil, List.nil_append, List.cons_append]

/-- Behind the first block, the markers are special tokens. -/
theorem marker_mem_written {region : Region} {format : Format}
    (member : block ∈ (region.blocks format).tail) : block.marker ∈ Format.written := by
  have markers : ∀ marker ∈ (region.blocks format).tail.map Block.marker,
      marker ∈ Format.written := by
    cases format <;>
      simp [blocks, Format.written, Format.tags, Format.fimReserved, Format.seedReserved]
  exact markers _ (List.mem_map_of_mem member)

section Spared

variable {region : Region} {format : Format}

/-- The four texts of a region are parts of its context. -/
theorem spares_parts (spares : format.Spares region.context) :
    format.Spares region.before ∧ format.Spares region.untilCursor ∧
      format.Spares region.fromCursor ∧ format.Spares region.after := by
  refine ⟨spares.of_part ?_, spares.of_part ?_, spares.of_part ?_, spares.of_part ?_⟩
  · exact ⟨[], region.editableText ++ region.after, by simp [context]⟩
  · exact ⟨region.before, region.fromCursor ++ region.after, by simp [context, editableText]⟩
  · exact ⟨region.before ++ region.untilCursor, region.after, by simp [context, editableText]⟩
  · exact ⟨region.before ++ region.editableText, [], by simp [context]⟩

/-- No text of a layout holds a tag: lines are added to a text, but no bracket. -/
theorem text_spared (spares : format.Spares region.context) (member : token ∈ format.reserved)
    (tag : token ∈ Format.tags) : ∀ text ∈ (region.blocks format).map Block.text, ¬ token <:+: text := by
  have inline := (Format.isTag_of_mem tag).inline
  have plain {text : Text} (noBracket : '<' ∉ text) : ¬ token <:+: text :=
    fun found => noBracket (found.subset (Format.isTag_of_mem tag).bracket_mem)
  obtain ⟨before, untilCursor, fromCursor, after⟩ := spares_parts spares
  have beforeFree := before token member
  have untilFree := untilCursor token member
  have fromFree := inline.free_closeLine (fromCursor token member)
  have afterFree := inline.free_closeLine (after token member)
  have beforeLine := inline.free_line beforeFree
  have afterLine := inline.free_closeLine (inline.free_line (after token member))
  have updatedFree : ¬ token <:+: "updated\n".toList := plain (by decide)
  have currentFree : ¬ token <:+: "current\n".toList ++ region.untilCursor := by
    have line : "current\n".toList ++ region.untilCursor =
        "current".toList ++ '\n' :: region.untilCursor := by
      simp
    rw [line, inline.infix_iff, not_or]
    exact ⟨plain (by decide), untilFree⟩
  have separatedFree : ¬ token <:+: Text.closeLine region.fromCursor ++ Marker.mergeSeparator := by
    have apart := Format.not_straddles_separator (Format.mem_vocabulary member)
    rw [Text.infix_append_iff_of_not_straddles (apart _), not_or]
    exact ⟨fromFree, plain (by decide)⟩
  cases format <;> simp only [blocks, List.map_cons, List.map_nil, List.forall_mem_cons]
  case middleAtEnd =>
    exact ⟨beforeLine, afterLine, currentFree, fromFree, updatedFree, List.forall_mem_nil _⟩
  case ordered | mediumRegion =>
    exact ⟨inline.free_closeLine beforeLine, currentFree, fromFree, afterLine, updatedFree,
      List.forall_mem_nil _⟩
  case mergeMarkers =>
    exact ⟨beforeFree, afterFree, plain (by decide), untilFree, separatedFree,
      List.forall_mem_nil _⟩
  case mergeBeforeSuffix | prefill =>
    exact ⟨beforeFree, untilFree, separatedFree, afterFree, plain (by decide),
      List.forall_mem_nil _⟩
  case seedCoder =>
    exact ⟨beforeFree, untilFree, separatedFree, List.forall_mem_nil _⟩

end Spared

end NextEdit.Region
