import NextEdit.Proofs.Format.Reserved
import NextEdit.Proofs.Region.Blocks

/-! A layout loses nothing of a region whose context holds no special token: path, cut and cursor are
read off it, up to the newlines that close a text. -/
namespace NextEdit

namespace Region

section Blocks

/-- In a layout no text holds the marker that ends it. -/
theorem isChain_blocks {region : Region} {format : Format}
    (spares : format.Spares region.context) : (region.blocks format).IsChain Block.Precedes := by
  have tag {token text : Text} (member : token ∈ format.reserved)
      (tagMember : token ∈ Format.tags)
      (textMember : text ∈ (region.blocks format).map Block.text) : ¬ token <:+: text :=
    text_spared spares member tagMember text textMember
  obtain ⟨beforeSpares, _⟩ := spares_parts spares
  cases format <;> simp only [blocks, List.isChain_cons_cons, Block.Precedes]
  case middleAtEnd | ordered | mediumRegion =>
    refine ⟨?_, ?_, ?_, ?_, .singleton _⟩ <;> exact tag (by decide) (by decide) (by simp [blocks])
  case mergeMarkers =>
    have middleFree : ¬ Marker.mergeStart <:+: [] := by
      decide
    refine ⟨?_, ?_, middleFree, ?_, .singleton _⟩ <;>
      exact tag (by decide) (by decide) (by simp [blocks])
  case mergeBeforeSuffix | prefill =>
    have beforeFree := beforeSpares Marker.mergeStart (by decide)
    refine ⟨beforeFree, ?_, ?_, ?_, .singleton _⟩ <;>
      exact tag (by decide) (by decide) (by simp [blocks])
  case seedCoder =>
    have beforeFree := beforeSpares Marker.mergeStart (by decide)
    exact ⟨beforeFree, tag (by decide) (by decide) (by simp [blocks]), .singleton _⟩

/-- What the blocks of a layout say about the texts of the region. -/
theorem texts_eq_of_blocks_eq {first second : Region} {format : Format}
    (same : first.blocks format = second.blocks format) :
    first.untilCursor = second.untilCursor ∧
      Text.closeLine first.before = Text.closeLine second.before ∧
      Text.closeLine first.fromCursor = Text.closeLine second.fromCursor ∧
      (format ≠ .seedCoder → Text.closeLine first.after = Text.closeLine second.after) ∧
      (format ≠ .ordered → format ≠ .mediumRegion → first.before = second.before) := by
  cases format <;>
    simp only [blocks, List.cons.injEq, Block.mk.injEq, List.append_cancel_left_eq,
      List.append_cancel_right_eq, true_and, and_true] at same
  case middleAtEnd =>
    obtain ⟨before, after, untilCursor, fromCursor⟩ := same
    exact ⟨untilCursor, congrArg _ before, fromCursor, fun _ => Text.closeLine_eq_of_line_eq after,
      fun _ _ => before⟩
  case ordered | mediumRegion =>
    obtain ⟨before, untilCursor, fromCursor, after⟩ := same
    exact ⟨untilCursor, Text.closeLine_eq_of_line_eq before, fromCursor,
      fun _ => Text.closeLine_eq_of_line_eq after, fun other otherMedium => by contradiction⟩
  case mergeMarkers =>
    obtain ⟨before, after, untilCursor, fromCursor⟩ := same
    exact ⟨untilCursor, congrArg _ before, fromCursor, fun _ => after, fun _ _ => before⟩
  case mergeBeforeSuffix | prefill =>
    obtain ⟨before, untilCursor, fromCursor, after⟩ := same
    exact ⟨untilCursor, congrArg _ before, fromCursor, fun _ => after, fun _ _ => before⟩
  case seedCoder =>
    obtain ⟨before, untilCursor, fromCursor⟩ := same
    exact ⟨untilCursor, congrArg _ before, fromCursor, fun other => absurd rfl other,
      fun _ _ => before⟩

/-- Regions that are laid out alike have the same blocks. -/
theorem blocks_eq_of_body_eq {first second : Region} {format : Format}
    (spares : format.Spares first.context) (otherSpares : format.Spares second.context)
    (same : first.body format = second.body format) :
    first.blocks format = second.blocks format := by
  rw [body_eq_blocks, body_eq_blocks] at same
  refine Block.eq_of_write_eq ?_ ?_ (isChain_blocks spares) (isChain_blocks otherSpares) same
  · cases format <;> rfl
  · intro block member
    have written := marker_mem_written member
    exact Format.endsBefore_written (Format.mem_vocabulary_of_written written) written

end Blocks

/-- The path ends with the line. -/
theorem fileLine_append_inj {format : Format} (firstLine : '\n' ∉ first) (secondLine : '\n' ∉ second)
    (same : format.fileLine first ++ rest = format.fileLine second ++ others) :
    first = second ∧ rest = others := by
  have free {path : Text} (line : '\n' ∉ path) : ¬ ['\n'] <:+: path :=
    fun found => line (found.subset List.mem_cons_self)
  rw [Format.fileLine, Format.fileLine] at same
  simp only [List.append_assoc] at same
  exact Text.append_marker_inj (by decide) (free firstLine) (free secondLine)
    (List.append_cancel_left same)

/-- Equal layouts show the same path, the same cut in front of the cursor and the same texts, up to
the newline that closes a text. Only two formats close the text before the region. -/
theorem layout_determines_region {first second : Region} {format : Format} {path other : Text}
    (pathLine : '\n' ∉ path) (otherLine : '\n' ∉ other)
    (clean : format.collisions first.context = [])
    (otherClean : format.collisions second.context = [])
    (same : first.layout format path = second.layout format other)
    (sameSuffix : format = .seedCoder → first.seedSuffixSection = second.seedSuffixSection) :
    path = other ∧ first.untilCursor = second.untilCursor ∧
      Text.closeLine first.before = Text.closeLine second.before ∧
      Text.closeLine first.fromCursor = Text.closeLine second.fromCursor ∧
      Text.closeLine first.after = Text.closeLine second.after ∧
      (format ≠ .ordered → format ≠ .mediumRegion → first.before = second.before) := by
  obtain ⟨paths, bodies⟩ := fileLine_append_inj pathLine otherLine same
  have blocks := blocks_eq_of_body_eq (Format.collisions_eq_nil_iff.mp clean)
    (Format.collisions_eq_nil_iff.mp otherClean) bodies
  obtain ⟨untilCursor, before, fromCursor, after, exactly⟩ := texts_eq_of_blocks_eq blocks
  refine ⟨paths, untilCursor, before, fromCursor, ?_, exactly⟩
  by_cases seed : format = .seedCoder
  · have suffixes := sameSuffix seed
    have unended : Text.endsLine Marker.seedSuffix = false := by
      decide
    rw [seedSuffixSection, seedSuffixSection, Text.closeLine_append_of_unended unended,
      Text.closeLine_append_of_unended unended] at suffixes
    exact List.append_cancel_left suffixes
  · exact after seed

/-- Half a merge marker stands on each side of the cut, and one of the regions lacks the newlines. -/
theorem layout_determines_region_of_sample :
    let closed : Region := ⟨"a<<<".toList, "<<<< CURR".toList, "ENT \n".toList, "=\n".toList⟩
    let cut : Region := ⟨"a<<<".toList, "<<<< CURR".toList, "ENT ".toList, "=".toList⟩
    let path := "main.py".toList
    closed.layout .seedCoder path = cut.layout .seedCoder path ∧
      Text.closeLine closed.after = Text.closeLine cut.after ∧ closed.before = cut.before := by
  intro closed cut path
  have same : closed.layout .seedCoder path = cut.layout .seedCoder path := by
    decide
  have sameSuffix : closed.seedSuffixSection = cut.seedSuffixSection := by
    decide
  obtain ⟨_, _, _, _, after, exactly⟩ := layout_determines_region (by decide) (by decide)
    (by decide) (by decide) same fun _ => sameSuffix
  exact ⟨same, after, exactly (by decide) (by decide)⟩

end Region

end NextEdit
