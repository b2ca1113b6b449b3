import NextEdit.Proofs.Diff.Apply

/-! Edits are tight. There is one only where the texts differ, each of them changes something, and
none replaces a character that its replacement starts or ends with too. -/
namespace NextEdit.Diff

/-- Where no hunk needs an edit, the two texts are the same. -/
theorem oldText_eq_newText_of_editsOf {hunks : List (Hunk Text)}
    (none : editsOf offset hunks = []) : oldText hunks = newText hunks := by
  induction hunks generalizing offset with
  | nil => rfl
  | cons hunk rest ih =>
    rw [oldText_cons, newText_cons]
    cases hunk with
    | keep items => exact congrArg (items.flatten ++ ·) (ih none)
    | change old new =>
      simp only [editsOf] at none
      split at none
      · rename_i idle
        have same := (Edit.ofChange_turns offset old.flatten new.flatten).eq_of_isIdle idle
        exact congrArg₂ (· ++ ·) same (ih none)
      · exact absurd none (List.cons_ne_nil _ _)

theorem edits_eq_nil_iff {offset : Int} {old new : Text} : edits offset old new = [] ↔ old = new := by
  constructor
  · intro none
    rw [← oldText_hunks old new, oldText_eq_newText_of_editsOf none, newText_hunks]
  · rintro rfl
    exact edits_self offset old

/-- An edit that is not idle replaces its stretch by another text. -/
theorem Edit.exists_tight_ofChange (offset : Int) (old new : Text)
    (acts : (ofChange offset old new).isIdle = false) :
    ∃ front cut back : Text, old = front ++ (cut ++ back) ∧
      (ofChange offset old new).start = offset + front.byteCount ∧
      (ofChange offset old new).stop = offset + (front.byteCount + cut.byteCount) ∧
      cut ≠ (ofChange offset old new).text ∧
      sharedLength cut (ofChange offset old new).text = 0 ∧
      sharedLength cut.reverse (ofChange offset old new).text.reverse = 0 := by
  obtain ⟨front, cut, replacement, back, parts, _, apartStarts, apartEnds, edit⟩ :=
    exists_ofChange_eq offset old new
  rw [edit] at acts ⊢
  refine ⟨front, cut, back, parts, rfl, rfl, ?_, apartStarts, apartEnds⟩
  rintro rfl
  -- A text shares all of itself with itself, so that nothing is left to replace.
  have length := le_sharedLength (Nat.le_refl cut.length) (Nat.le_refl _) rfl
  rw [apartStarts, Nat.le_zero, List.length_eq_zero_iff] at length
  rw [length] at acts
  simp [isIdle] at acts

/-- The edits are tight: none where the texts are equal, and otherwise each replaces a stretch of the
old text by another text, of which neither the first nor the last character is that of the stretch. -/
theorem edits_are_tight (offset : Nat) (old new : Text) :
    checkEdits (edits offset old new) = .valid (edits offset old new) ∧
    (edits offset old new = [] ↔ old = new) ∧
    ∀ edit ∈ edits offset old new, ∃ front cut back : Text, old = front ++ (cut ++ back) ∧
      edit.start = offset + front.byteCount ∧
      edit.stop = offset + (front.byteCount + cut.byteCount) ∧
      cut ≠ edit.text ∧
      (∀ char, cut.head? = some char → edit.text.head? ≠ some char) ∧
      (∀ char, cut.getLast? = some char → edit.text.getLast? ≠ some char) := by
  refine ⟨checkEdits_edits offset old new, edits_eq_nil_iff, ?_⟩
  intro edit member
  obtain ⟨earlier, oldLines, newLines, later, hunksParts, rfl, acts⟩ :=
    exists_change_of_mem_editsOf member
  obtain ⟨front, cut, back, parts, start, stop, differs, apartStarts, apartEnds⟩ :=
    Edit.exists_tight_ofChange _ _ _ acts
  refine ⟨oldText earlier ++ front, cut, back ++ oldText later, ?_, ?_, ?_, differs,
    sharedLength_eq_zero_iff.mp apartStarts, ?_⟩
  · rw [← oldText_hunks old new, hunksParts, oldText_append, oldText_cons, Hunk.old, parts]
    simp only [List.append_assoc]
  · rw [start, Text.byteCount_append]
    omega
  · rw [stop, Text.byteCount_append]
    omega
  · simpa only [List.head?_reverse] using sharedLength_eq_zero_iff.mp apartEnds

/-- The start is trimmed first, and the end of what is left behind it: `aba` loses its last two
characters to become `a`. -/
example : edits 0 "aba".toList "a".toList = [{ start := 1, stop := 3, text := [] }] := by
  decide +kernel

end NextEdit.Diff
