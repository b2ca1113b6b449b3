import Mathlib.Algebra.Ring.Nat
import NextEdit.Proofs.Budget.Related

/-! What the excerpts of a file are charged, byte by byte. The charge looks at the text of an excerpt
alone and counts a newline for an empty one, which writes none; the byte never buys a token. -/
namespace NextEdit.Related

namespace Excerpt

/-- The excerpts of a file write what they are charged for, less a newline for each empty text. -/
theorem byteCount_blocks (maxRow : Nat) (excerpts : List Excerpt) :
    Text.byteCount (excerpts.flatMap (block maxRow)) + excerpts.countP (·.text.isEmpty) =
      (excerpts.map (chargedBytes maxRow)).sum := by
  induction excerpts with
  | nil => rfl
  | cons excerpt rest ih =>
    have first := excerpt.byteCount_block maxRow
    rw [List.flatMap_cons, Text.byteCount_append, List.countP_cons, List.map_cons, List.sum_cons]
    omega

end Excerpt

/-- Behind a closed line, excerpts only add to the text and close the last line again. Each of them adds
a stretch of the tokens it is charged, the empty ones too, and all of them together add the bytes they
are charged for, less one for each empty text. -/
theorem excerpts_charged_as_written {text : Text} (closed : text.endsLine = true) (file : File)
    (excerpts : List Excerpt) :
    let written kept := File.appendExcerpts text { file with excerpts := kept }
    text <+: written excerpts ∧ (written excerpts).endsLine = true ∧
    (∀ before excerpt behind, excerpts = before ++ excerpt :: behind →
      ∃ stretch, written (before ++ [excerpt]) = written before ++ stretch ∧
        written (before ++ [excerpt]) <+: written excerpts ∧
        stretch.tokens = excerpt.cost file.maxRow ∧
        excerpt.cost file.maxRow = excerpt.chargedBytes file.maxRow / bytesPerToken) ∧
    (written excerpts).byteCount + excerpts.countP (·.text.isEmpty) =
      text.byteCount + (excerpts.map (Excerpt.chargedBytes file.maxRow)).sum := by
  intro written
  have written_eq (kept : List Excerpt) :
      written kept = text ++ kept.flatMap (Excerpt.block file.maxRow) :=
    File.foldl_excerpts closed file.maxRow kept
  have written_append (kept more : List Excerpt) :
      written (kept ++ more) = written kept ++ more.flatMap (Excerpt.block file.maxRow) := by
    rw [written_eq, written_eq, List.flatMap_append, List.append_assoc]
  refine ⟨⟨_, (written_eq excerpts).symm⟩,
    File.endsLine_foldl_excerpts closed file.maxRow excerpts, ?_, ?_⟩
  · rintro before excerpt behind rfl
    refine ⟨excerpt.block file.maxRow, ?_, ?_, (excerpt.cost_eq_tokens file.maxRow).symm,
      excerpt.cost_eq file.maxRow⟩
    · rw [written_append, List.flatMap_singleton]
    · rw [List.append_cons before excerpt behind, written_append (before ++ [excerpt]) behind]
      exact List.prefix_append _ _
  · rw [written_eq, Text.byteCount_append, Nat.add_assoc, Excerpt.byteCount_blocks]

/-- A file with an excerpt that breaks off in a line, an empty one and the end of the file. -/
def patchy : File where
  path := "a.rb".toList
  maxRow := 60
  excerpts :=
    [{ rows := { start := 41, stop := 47 }, text := "def a".toList },
      { rows := { start := 47, stop := 53 }, text := [] },
      { rows := { start := 53, stop := 60 }, text := "end\n".toList }]
  inOpenSource := false

/-- The empty excerpt is charged five bytes and writes four of them, one token either way. -/
theorem excerpts_charged_as_written_of_patchy :
    let written kept := File.appendExcerpts ['\n'] { patchy with excerpts := kept }
    Text.endsLine ['\n'] = true ∧
      (written patchy.excerpts).byteCount + 1 = 1 + (10 + 5 + 4) ∧
      ∃ stretch, written (patchy.excerpts.take 2) = written (patchy.excerpts.take 1) ++ stretch ∧
        stretch.tokens = 1 := by
  intro written
  have closed : Text.endsLine ['\n'] = true := rfl
  have counted : patchy.excerpts.countP (·.text.isEmpty) = 1 ∧
      (patchy.excerpts.map (Excerpt.chargedBytes patchy.maxRow)).sum = 10 + 5 + 4 := by
    decide
  obtain ⟨_, _, stretches, total⟩ := excerpts_charged_as_written closed patchy patchy.excerpts
  rw [counted.1, counted.2] at total
  obtain ⟨stretch, added, _, charged, _⟩ := stretches (patchy.excerpts.take 1) _ _ rfl
  exact ⟨closed, total, stretch, added, charged⟩

end NextEdit.Related
