import NextEdit.Diff.Edit

/-! The longest common block. The row of lengths that the scan carries holds, at each new item, how
many items the two sequences share when both are read backwards from there. So the block it settles
on stands in both sequences, and no block that stands in both is longer. -/
namespace NextEdit.Diff

variable {α : Type} [BEq α]

section Shared

variable [LawfulBEq α]

theorem take_sharedLength (left right : List α) :
    left.take (sharedLength left right) = right.take (sharedLength left right) := by
  fun_induction sharedLength left right with
  | case1 item lefts other rights same ih =>
    rw [List.take_succ_cons, List.take_succ_cons, ih, beq_iff_eq.mp same]
  | case2 => rfl
  | case3 => rfl

theorem le_sharedLength {left right : List α} (fitsLeft : count ≤ left.length)
    (fitsRight : count ≤ right.length) (same : left.take count = right.take count) :
    count ≤ sharedLength left right := by
  induction count generalizing left right with
  | zero => exact Nat.zero_le _
  | succ count ih =>
    cases left with
    | nil => simp at fitsLeft
    | cons item lefts =>
      cases right with
      | nil => simp at fitsRight
      | cons other rights =>
        obtain ⟨rfl, rest⟩ := List.cons.inj same
        simp only [sharedLength, beq_self_eq_true, if_true]
        exact Nat.succ_le_succ
          (ih (Nat.le_of_succ_le_succ fitsLeft) (Nat.le_of_succ_le_succ fitsRight) rest)

end Shared

theorem sharedLength_nil_right (left : List α) : sharedLength left [] = 0 := by
  cases left <;> rfl

theorem sharedLength_le_left (left right : List α) : sharedLength left right ≤ left.length := by
  fun_induction sharedLength left right with
  | case1 item lefts other rights same ih => exact Nat.succ_le_succ ih
  | case2 => exact Nat.zero_le _
  | case3 => exact Nat.zero_le _

theorem sharedLength_le_right (left right : List α) : sharedLength left right ≤ right.length := by
  fun_induction sharedLength left right with
  | case1 item lefts other rights same ih => exact Nat.succ_le_succ ih
  | case2 => exact Nat.zero_le _
  | case3 => exact Nat.zero_le _

/-- The row of the scan: what `done` shares with `seen` and one, two, three more new items, both
sides read backwards. -/
def endLengths (done seen : List α) : List α → List Nat
  | [] => []
  | item :: rest => sharedLength done (item :: seen) :: endLengths done (item :: seen) rest

theorem endLengths_nil (seen rest : List α) : endLengths [] seen rest = rest.map fun _ => 0 := by
  induction rest generalizing seen with
  | nil => rfl
  | cons item rest ih => rw [endLengths, ih]; rfl

/-- One more old item turns the row of the items before it into its own. -/
theorem nextLengths_endLengths (item : α) (done seen rest : List α) :
    nextLengths item (sharedLength done seen) (endLengths done seen rest) rest =
      endLengths (item :: done) seen rest := by
  induction rest generalizing seen with
  | nil => rfl
  | cons other rest ih => rw [endLengths, nextLengths, ih, endLengths, sharedLength]

/-- A block that stands in both sequences. -/
structure Block.Common (block : Block) (old new : List α) : Prop where
  oldFits : block.oldStart + block.length ≤ old.length
  newFits : block.newStart + block.length ≤ new.length
  same : (old.drop block.oldStart).take block.length = (new.drop block.newStart).take block.length

variable [LawfulBEq α]

omit [BEq α] [LawfulBEq α] in
private theorem take_drop_reverse (done rest : List α) (fits : length ≤ done.length) :
    ((done.reverse ++ rest).drop (done.length - length)).take length =
      (done.take length).reverse := by
  rw [List.drop_append_of_le_length (by simp), List.drop_reverse,
    show done.length - (done.length - length) = length by omega]
  exact List.take_left' (by simp [fits])

/-- Items shared backwards from two places are a block that ends there. -/
theorem Block.common_of_shared (done seen oldRest newRest : List α) :
    Block.Common
      { oldStart := done.length - sharedLength done seen
        newStart := seen.length - sharedLength done seen
        length := sharedLength done seen }
      (done.reverse ++ oldRest) (seen.reverse ++ newRest) := by
  have fitsDone := sharedLength_le_left done seen
  have fitsSeen := sharedLength_le_right done seen
  constructor
  · simp only [List.length_append, List.length_reverse]; omega
  · simp only [List.length_append, List.length_reverse]; omega
  · rw [take_drop_reverse done oldRest fitsDone, take_drop_reverse seen newRest fitsSeen,
      take_sharedLength]

private theorem longer_common {best : Block} (done seen oldRest newRest : List α)
    (common : best.Common (done.reverse ++ oldRest) (seen.reverse ++ newRest))
    (oldPlace : oldIndex + 1 = done.length) (newPlace : newIndex = seen.length) :
    (longer oldIndex newIndex best (endLengths done seen newRest)).Common
      (done.reverse ++ oldRest) (seen.reverse ++ newRest) := by
  induction newRest generalizing seen newIndex best with
  | nil => exact common
  | cons item rest ih =>
    have further : seen.reverse ++ item :: rest = (item :: seen).reverse ++ rest := by simp
    rw [further] at common ⊢
    refine ih (item :: seen) ?_ (by simp [newPlace])
    split
    · have block := Block.common_of_shared done (item :: seen) oldRest rest
      rwa [List.length_cons, ← newPlace, ← oldPlace] at block
    · exact common

omit [BEq α] [LawfulBEq α] in
private theorem le_longer (oldIndex newIndex : Nat) (best : Block) (lengths : List Nat) :
    best.length ≤ (longer oldIndex newIndex best lengths).length ∧
      ∀ length ∈ lengths, length ≤ (longer oldIndex newIndex best lengths).length := by
  induction lengths generalizing newIndex best with
  | nil => exact ⟨Nat.le_refl _, by simp⟩
  | cons length rest ih =>
    by_cases shorter : best.length < length
    · simp only [longer, if_pos shorter]
      obtain ⟨kept, covers⟩ := ih (newIndex + 1)
        { oldStart := oldIndex + 1 - length, newStart := newIndex + 1 - length, length }
      exact ⟨Nat.le_trans (Nat.le_of_lt shorter) kept, List.forall_mem_cons.mpr ⟨kept, covers⟩⟩
    · simp only [longer, if_neg shorter]
      obtain ⟨kept, covers⟩ := ih (newIndex + 1) best
      exact ⟨kept, List.forall_mem_cons.mpr ⟨Nat.le_trans (Nat.le_of_not_lt shorter) kept, covers⟩⟩

private theorem longestFrom_common {best : Block} (done rest new : List α)
    (common : best.Common (done.reverse ++ rest) new) :
    (longestFrom new done.length (endLengths done [] new) best rest).Common
      (done.reverse ++ rest) new := by
  induction rest generalizing done best with
  | nil => exact common
  | cons item rest ih =>
    have further : done.reverse ++ item :: rest = (item :: done).reverse ++ rest := by simp
    have row := nextLengths_endLengths item done [] new
    rw [sharedLength_nil_right] at row
    rw [further] at common ⊢
    rw [longestFrom, row]
    exact ih (item :: done) (longer_common (item :: done) [] rest new common rfl rfl)

/-- The block stands in both sequences. -/
theorem longestBlock_common (old new : List α) : (longestBlock old new).Common old new := by
  rw [longestBlock, ← endLengths_nil []]
  exact longestFrom_common [] old new ⟨Nat.zero_le _, Nat.zero_le _, by simp⟩

omit [LawfulBEq α] in
private theorem le_longestFrom (oldIndex : Nat) (lengths : List Nat) (best : Block)
    (rest new : List α) :
    best.length ≤ (longestFrom new oldIndex lengths best rest).length := by
  induction rest generalizing oldIndex lengths best with
  | nil => exact Nat.le_refl _
  | cons item rest ih =>
    rw [longestFrom]
    exact Nat.le_trans (le_longer _ _ _ _).1 (ih _ _ _)

omit [LawfulBEq α] in
private theorem sharedLength_mem_endLengths (done seen : List α) {more : List α} (newRest : List α)
    (nonempty : more ≠ []) :
    sharedLength done (more.reverse ++ seen) ∈ endLengths done seen (more ++ newRest) := by
  induction more generalizing seen with
  | nil => exact absurd rfl nonempty
  | cons item more ih =>
    rw [List.cons_append, endLengths]
    by_cases last : more = []
    · subst last
      exact List.mem_cons_self
    · have member := ih (item :: seen) last
      rw [List.reverse_cons, List.append_assoc]
      exact List.mem_cons_of_mem _ member

omit [LawfulBEq α] in
/-- What two beginnings share, read backwards, is never more than the scan has found once it has
passed the first of them. -/
private theorem sharedLength_le_longestFrom (done oldRest front newRest : List α) {more : List α}
    (nonempty : more ≠ []) (best : Block) :
    sharedLength (more.reverse ++ done) front.reverse ≤
      (longestFrom (front ++ newRest) done.length (endLengths done [] (front ++ newRest)) best
        (more ++ oldRest)).length := by
  induction more generalizing done best with
  | nil => exact absurd rfl nonempty
  | cons item more ih =>
    have row := nextLengths_endLengths item done [] (front ++ newRest)
    rw [sharedLength_nil_right] at row
    rw [List.cons_append, longestFrom, row, List.reverse_cons, List.append_assoc]
    by_cases last : more = []
    · subst last
      refine Nat.le_trans ?_ (le_longestFrom _ _ _ _ _)
      by_cases empty : front = []
      · subst empty
        rw [List.reverse_nil, sharedLength_nil_right]
        exact Nat.zero_le _
      · have member := sharedLength_mem_endLengths (item :: done) [] newRest empty
        rw [List.append_nil] at member
        exact (le_longer _ _ _ _).2 _ member
    · exact ih (item :: done) last _

/-- No block that stands in both sequences is longer. -/
theorem le_longestBlock {block : Block} {old new : List α} (common : block.Common old new) :
    block.length ≤ (longestBlock old new).length := by
  by_cases empty : block.length = 0
  · rw [empty]
    exact Nat.zero_le _
  · have oldFits := common.oldFits
    have newFits := common.newFits
    have shared : block.length ≤ sharedLength (old.take (block.oldStart + block.length)).reverse
        (new.take (block.newStart + block.length)).reverse := by
      refine le_sharedLength (by simp; omega) (by simp; omega) ?_
      rw [List.take_reverse, List.take_reverse, List.length_take_of_le oldFits,
        List.length_take_of_le newFits, Nat.add_sub_cancel, Nat.add_sub_cancel, List.drop_take,
        List.drop_take, Nat.add_sub_cancel_left, Nat.add_sub_cancel_left, common.same]
    have nonempty : old.take (block.oldStart + block.length) ≠ [] := by
      intro none
      have := List.length_take_of_le oldFits
      rw [none, List.length_nil] at this
      omega
    have bound := sharedLength_le_longestFrom [] (old.drop (block.oldStart + block.length))
      (new.take (block.newStart + block.length)) (new.drop (block.newStart + block.length)) nonempty
      { oldStart := 0, newStart := 0, length := 0 }
    rw [List.append_nil, List.take_append_drop, List.take_append_drop, endLengths_nil] at bound
    exact Nat.le_trans shared bound

/-- A sequence is its own longest block. -/
theorem longestBlock_self (items : List α) :
    longestBlock items items = { oldStart := 0, newStart := 0, length := items.length } := by
  have whole : Block.Common { oldStart := 0, newStart := 0, length := items.length } items items :=
    ⟨by simp, by simp, rfl⟩
  have longest := le_longestBlock whole
  obtain ⟨oldFits, newFits, _⟩ := longestBlock_common items items
  cases found : longestBlock items items with
  | mk oldStart newStart length =>
    rw [found] at longest oldFits newFits
    simp only [Block.mk.injEq] at longest oldFits newFits ⊢
    omega

end NextEdit.Diff
