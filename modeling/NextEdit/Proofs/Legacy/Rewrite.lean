import NextEdit.Proofs.Diff.Apply
import NextEdit.Proofs.Legacy.Fence

/-! The edits of an answer. A rewrite between region markers reaches the buffer as it was written,
wherever the model put cursor markers into it. -/
namespace NextEdit.Diff

/-- The edits of a fenced rewrite put it in the place of the old text and leave every other byte. A
rewrite that changes nothing needs none. -/
theorem fenced_rewrite_in_place {lead rewrite tail : Text} {pieces : List Text}
    (leadIs : Legacy.IsLead lead) (marked : pieces.flatten = rewrite)
    (rewriteFree : Legacy.Unmarked rewrite) (tailFree : Legacy.Unmarked tail)
    (old : Text) (front back : Octets) :
    ∃ edits,
      legacyEdits front.length
        (Legacy.fenced lead (Text.join Marker.legacyCursor pieces) tail) old = .ok edits ∧
      checkEdits edits = .valid edits ∧
      apply edits (front ++ (Text.encode old ++ back)) = front ++ (Text.encode rewrite ++ back) ∧
      (rewrite = old → edits = []) := by
  subst marked
  refine ⟨edits front.length old pieces.flatten, ?_, checkEdits_edits _ old _,
    apply_edits old _ front back, ?_⟩
  · rw [legacyEdits, Legacy.extract_fenced leadIs rewriteFree tailFree]
    rfl
  · rintro rfl
    exact edits_self _ _

/-- Cursor markers at both ends of the rewrite and in the middle of it. -/
theorem fenced_rewrite_in_place_of_sample :
    let answer := Legacy.fenced "```a.py\n<|start_of_file|>\n".toList
      (Text.join Marker.legacyCursor ["".toList, "b = ".toList, "2\n".toList, "".toList]) "\n```".toList
    ∃ edits,
      legacyEdits 2 answer "b = 1\n".toList = .ok edits ∧
      apply edits (Text.encode "a\nb = 1\nc\n".toList) = Text.encode "a\nb = 2\nc\n".toList := by
  intro answer
  have leadIs : Legacy.IsLead "```a.py\n<|start_of_file|>\n".toList :=
    ⟨by decide, by decide, by decide, by decide⟩
  obtain ⟨edits, found, _, applied, _⟩ := fenced_rewrite_in_place leadIs
    (show ["".toList, "b = ".toList, "2\n".toList, "".toList].flatten = "b = 2\n".toList by decide)
    (by decide) (show Legacy.Unmarked "\n```".toList by decide) "b = 1\n".toList
    (Text.encode "a\n".toList) (Text.encode "c\n".toList)
  exact ⟨edits, found, applied⟩

end NextEdit.Diff
