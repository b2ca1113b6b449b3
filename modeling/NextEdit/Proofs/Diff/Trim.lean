import NextEdit.Proofs.Diff.Block

/-! One edit of a change. What the old and the new text share at both ends is left alone; the edit
replaces the stretch between by what stands between in the new text. -/
namespace NextEdit.Diff

/-- The edit turns `old`, which stands at `offset`, into `new` by replacing one stretch of it. -/
def Edit.Turns (edit : Edit) (offset : Int) (old new : Text) : Prop :=
  ∃ front cut back : Text, old = front ++ (cut ++ back) ∧ new = front ++ (edit.text ++ back) ∧
    edit.start = offset + front.byteCount ∧ edit.stop = offset + (front.byteCount + cut.byteCount)

section Shared

variable {α : Type} [BEq α]

/-- Behind what two sequences share, they share nothing more. -/
theorem sharedLength_drop (left right : List α) :
    sharedLength (left.drop (sharedLength left right)) (right.drop (sharedLength left right)) =
      0 := by
  fun_induction sharedLength left right with
  | case1 item lefts other rights same ih => exact ih
  | case2 item lefts other rights differ =>
    rw [List.drop_zero, List.drop_zero, sharedLength]
    exact if_neg differ
  | case3 lefts rights ended =>
    rw [List.drop_zero, List.drop_zero, sharedLength]
    exact ended

/-- More items behind two sequences leave them what they share. -/
theorem sharedLength_le_append (left right more others : List α) :
    sharedLength left right ≤ sharedLength (left ++ more) (right ++ others) := by
  fun_induction sharedLength left right with
  | case1 item lefts other rights same ih =>
    rw [List.cons_append, List.cons_append, sharedLength, if_pos same]
    exact Nat.succ_le_succ ih
  | case2 => exact Nat.zero_le _
  | case3 => exact Nat.zero_le _

variable [LawfulBEq α]

/-- Two sequences that share nothing at their start do not have the same first item. -/
theorem sharedLength_eq_zero_iff {left right : List α} : sharedLength left right = 0 ↔
    ∀ item, left.head? = some item → right.head? ≠ some item := by
  cases left with
  | nil => simp [sharedLength]
  | cons item lefts =>
    cases right with
    | nil => simp [sharedLength]
    | cons other rights =>
      by_cases same : item = other
      · simp [sharedLength, same]
      · simp [sharedLength, same, Ne.symm same]

theorem sharedStart (left right : List α) :
    ∃ front leftRest rightRest, left = front ++ leftRest ∧ right = front ++ rightRest ∧
      front.length = sharedLength left right ∧ sharedLength leftRest rightRest = 0 :=
  ⟨left.take (sharedLength left right), left.drop (sharedLength left right),
    right.drop (sharedLength left right), (List.take_append_drop _ _).symm,
    by rw [take_sharedLength, List.take_append_drop],
    List.length_take_of_le (sharedLength_le_left left right), sharedLength_drop left right⟩

theorem sharedEnd (left right : List α) :
    ∃ leftRest rightRest back, left = leftRest ++ back ∧ right = rightRest ++ back ∧
      back.length = sharedLength left.reverse right.reverse ∧
      sharedLength leftRest.reverse rightRest.reverse = 0 := by
  obtain ⟨front, leftRest, rightRest, leftParts, rightParts, length, spent⟩ :=
    sharedStart left.reverse right.reverse
  refine ⟨leftRest.reverse, rightRest.reverse, front.reverse, ?_, ?_, ?_, ?_⟩
  · rw [← List.reverse_append, ← leftParts, List.reverse_reverse]
  · rw [← List.reverse_append, ← rightParts, List.reverse_reverse]
  · rw [List.length_reverse, length]
  · rw [List.reverse_reverse, List.reverse_reverse, spent]

end Shared

theorem Edit.ofChange_eq (offset : Int) {front cut replacement back : Text}
    (lead : front.length = sharedLength (front ++ (cut ++ back)) (front ++ (replacement ++ back)))
    (trail : back.length = sharedLength (cut ++ back).reverse (replacement ++ back).reverse) :
    Edit.ofChange offset (front ++ (cut ++ back)) (front ++ (replacement ++ back)) =
      { start := offset + front.byteCount
        stop := offset + (front.byteCount + cut.byteCount)
        text := replacement } := by
  have length (middle : Text) :
      (front ++ (middle ++ back)).length - back.length = (front ++ middle).length := by
    simp only [List.length_append]
    omega
  simp only [Edit.ofChange, ← lead, List.drop_left, ← trail, length, Edit.mk.injEq]
  refine ⟨?_, ?_, ?_⟩
  · rw [List.take_left]
  · rw [← List.append_assoc, List.drop_left]
    simp only [Text.byteCount_append]
    omega
  · rw [← List.append_assoc, List.take_left, List.drop_left]

/-- The edit of a change replaces what the two texts do not share at either end. -/
theorem Edit.exists_ofChange_eq (offset : Int) (old new : Text) :
    ∃ front cut replacement back : Text, old = front ++ (cut ++ back) ∧
      new = front ++ (replacement ++ back) ∧ sharedLength cut replacement = 0 ∧
      sharedLength cut.reverse replacement.reverse = 0 ∧
      Edit.ofChange offset old new =
        { start := offset + front.byteCount
          stop := offset + (front.byteCount + cut.byteCount)
          text := replacement } := by
  obtain ⟨front, oldRest, newRest, rfl, rfl, lead, leadSpent⟩ := sharedStart old new
  obtain ⟨cut, replacement, back, rfl, rfl, trail, trailSpent⟩ := sharedEnd oldRest newRest
  -- The end is trimmed after the start, so it cannot reach back into what the start took.
  have apart := Nat.eq_zero_of_le_zero (leadSpent ▸ sharedLength_le_append cut replacement back back)
  exact ⟨front, cut, replacement, back, rfl, rfl, apart, trailSpent, Edit.ofChange_eq offset lead trail⟩

/-- The edit of a change turns the old text into the new. -/
theorem Edit.ofChange_turns (offset : Int) (old new : Text) :
    (Edit.ofChange offset old new).Turns offset old new := by
  obtain ⟨front, cut, replacement, back, oldParts, newParts, _, _, edit⟩ :=
    exists_ofChange_eq offset old new
  rw [edit]
  exact ⟨front, cut, back, oldParts, newParts, rfl, rfl⟩

/-- An idle edit changes nothing. -/
theorem Edit.Turns.eq_of_isIdle {edit : Edit} (turns : edit.Turns offset old new)
    (idle : edit.isIdle = true) : old = new := by
  obtain ⟨front, cut, back, rfl, rfl, start, stop⟩ := turns
  obtain ⟨together, empty⟩ := Bool.and_eq_true_iff.mp idle
  have place := beq_iff_eq.mp together
  have uncut : cut = [] := by
    cases cut with
    | nil => rfl
    | cons char rest =>
      have := char.utf8Size_pos
      rw [Text.byteCount_cons] at stop
      omega
  rw [uncut, List.isEmpty_iff.mp empty]

end NextEdit.Diff
