import NextEdit.Format
import NextEdit.Proofs.Text.Tag

/-! The special tokens of the formats as markers. All but the merge markers are tags, and layouts write
all but the merge end marker. A special token never runs into one that a layout writes. -/
namespace NextEdit.Format

/-- The special tokens in angle brackets. -/
def tags : List Text :=
  fimReserved ++ seedReserved ++ [Marker.cursor]

/-- The special tokens of all formats. -/
def vocabulary : List Text :=
  tags ++ mergeReserved

/-- The special tokens that layouts write. The merge end marker is left to the answer. -/
def written : List Text :=
  Marker.mergeStart :: Marker.mergeSeparator :: tags

section Tokens

variable {format : Format}

theorem isTag_of_mem (member : token ∈ tags) : Text.IsTag token := by
  have table : ∀ token ∈ tags, Text.IsTag token := by
    decide +kernel
  exact table token member

theorem mem_vocabulary (member : token ∈ format.reserved) : token ∈ vocabulary := by
  cases format <;> simp only [reserved, vocabulary, tags, List.mem_append] at member ⊢ <;> grind

theorem mem_tags_of_single (member : token ∈ format.reserved) (single : token ∉ mergeReserved) :
    token ∈ tags :=
  (List.mem_append.mp (mem_vocabulary member)).resolve_right single

theorem mem_vocabulary_of_written (member : token ∈ written) : token ∈ vocabulary := by
  simp only [written, vocabulary, mergeReserved, List.mem_cons, List.mem_append] at member ⊢
  grind

theorem fileMarker_mem_tags (format : Format) : format.fileMarker ∈ tags := by
  cases format <;> simp [fileMarker, tags, fimReserved, seedReserved]

/-- A merge marker is a line. -/
theorem exists_line_of_merge (merge : token ∈ mergeReserved) :
    ∃ line, token = line ++ ['\n'] ∧ '\n' ∉ line := by
  have table : ∀ token ∈ mergeReserved, token = token.dropLast ++ ['\n'] ∧ '\n' ∉ token.dropLast := by
    decide
  exact ⟨token.dropLast, table token merge⟩

theorem ne_nil_of_mem (member : token ∈ vocabulary) : token ≠ [] := by
  rcases List.mem_append.mp member with tag | merge
  · exact (isTag_of_mem tag).inline.1
  · obtain ⟨line, rfl, _⟩ := exists_line_of_merge merge
    exact List.concat_ne_nil _ _

theorem endsBefore_written (member : token ∈ vocabulary) (otherMember : other ∈ written) :
    Text.EndsBefore token other := by
  have separated : ∀ token ∈ tags, Text.EndsBefore token Marker.mergeSeparator := by
    decide +kernel
  have merges : ∀ token ∈ mergeReserved, ∀ other ∈ written, Text.EndsBefore token other := by
    decide +kernel
  rcases List.mem_append.mp member with tag | merge
  · have bracket : Marker.mergeStart = '<' :: Marker.mergeStart.tail := by
      decide
    simp only [written, List.mem_cons] at otherMember
    rcases otherMember with rfl | rfl | otherTag
    · rw [bracket]
      exact (isTag_of_mem tag).endsBefore_bracket _
    · exact separated token tag
    · exact (isTag_of_mem tag).endsBefore (isTag_of_mem otherTag)
  · exact merges token merge other otherMember

theorem not_straddles_separator (member : token ∈ vocabulary) (left : Text) :
    ¬ Text.Straddles token left Marker.mergeSeparator := by
  have apart := (endsBefore_written member (.tail _ (.head _))).not_straddles left []
  rwa [List.append_nil] at apart

/-- Only the last character of a token can be a newline. -/
theorem startsBehind_line (member : token ∈ vocabulary) (lead : Text) :
    Text.StartsBehind token (lead ++ ['\n']) := by
  rcases List.mem_append.mp member with tag | merge
  · exact (isTag_of_mem tag).startsBehind_newline lead
  · obtain ⟨line, rfl, line_free⟩ := exists_line_of_merge merge
    refine .of_last ?_ lead
    rwa [List.dropLast_concat]

theorem startsBehind_merge (member : token ∈ vocabulary) (merge : other ∈ mergeReserved) :
    Text.StartsBehind token other := by
  obtain ⟨line, rfl, _⟩ := exists_line_of_merge merge
  exact startsBehind_line member line

theorem startsBehind_written (tag : token ∈ tags) (otherMember : other ∈ written) :
    Text.StartsBehind token other := by
  have known : token ∈ vocabulary := List.mem_append_left _ tag
  simp only [written, List.mem_cons] at otherMember
  rcases otherMember with rfl | rfl | otherTag
  · exact startsBehind_merge known (.head _)
  · exact startsBehind_merge known (.tail _ (.head _))
  · exact (isTag_of_mem tag).startsBehind (isTag_of_mem otherTag)

/-- The formats without merge markers reserve tags only. -/
theorem not_merge_of_fim (member : token ∈ fimReserved ++ [Marker.cursor]) :
    token ∉ mergeReserved := by
  intro merge
  obtain ⟨line, rfl, _⟩ := exists_line_of_merge merge
  have tag : line ++ ['\n'] ∈ tags := by
    simp only [tags, List.mem_append] at member ⊢
    grind
  exact (isTag_of_mem tag).inline.2 List.mem_concat_self

/-- A tag has nothing but its closing bracket in common with a merge marker. -/
theorem exists_word_of_tag (member : tag ∈ tags) (merge : token ∈ mergeReserved) :
    ∃ word, tag = word ++ ['>'] ∧ Text.StartsBehind token word ∧ ¬ token <:+: word := by
  have table : ∀ tag ∈ tags, tag = tag.dropLast ++ ['>'] ∧ '\n' ∉ tag.dropLast ∧
      ∀ token ∈ mergeReserved, Text.StartsBehind token tag.dropLast := by
    decide +kernel
  obtain ⟨whole, inLine, starts⟩ := table tag member
  refine ⟨tag.dropLast, whole, starts token merge, fun found => ?_⟩
  obtain ⟨line, rfl, _⟩ := exists_line_of_merge merge
  exact inLine (found.subset List.mem_concat_self)

end Tokens

/-- The text holds none of the format's special tokens. -/
def Spares (format : Format) (text : Text) : Prop :=
  ∀ token ∈ format.reserved, ¬ token <:+: text

theorem collisions_eq_nil_iff : collisions format text = [] ↔ format.Spares text := by
  rw [collisions, List.filter_eq_nil_iff]
  constructor
  · intro clean token member found
    exact clean token member (Text.contains_iff.mpr found)
  · intro spares token member found
    exact spares token member (Text.contains_iff.mp found)

theorem Spares.of_part {format : Format} (spares : format.Spares whole) (part : text <:+: whole) :
    format.Spares text :=
  fun token member found => spares token member (found.trans part)

theorem spares_nil (format : Format) : format.Spares [] :=
  fun _ member found => ne_nil_of_mem (mem_vocabulary member) (List.infix_nil.mp found)

end NextEdit.Format
