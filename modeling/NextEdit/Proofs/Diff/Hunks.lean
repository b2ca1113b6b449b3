import NextEdit.Proofs.Diff.Block
import Mathlib.Data.List.Chain

/-! The hunks of a comparison tile both sequences, and of two changes in a row the one never follows
the other: something that both sequences have stands between them. -/
namespace NextEdit.Diff

variable {α : Type}

/-- A hunk that keeps at least one item. -/
def Hunk.Keeps : Hunk α → Prop
  | keep items => items ≠ []
  | change _ _ => False

/-- Changes stand apart: of any two neighbours one keeps something. -/
def Apart (hunks : List (Hunk α)) : Prop :=
  hunks.IsChain fun earlier later => earlier.Keeps ∨ later.Keeps

theorem Apart.insert_keep {left right : List (Hunk α)} {items : List α} (before : Apart left)
    (after : Apart right) (nonempty : items ≠ []) : Apart (left ++ .keep items :: right) := by
  refine List.IsChain.append before ?_ ?_
  · exact List.IsChain.cons after fun _ _ => .inl nonempty
  · intro earlier _ later first
    cases Option.mem_some_iff.mp first
    exact .inr nonempty

private theorem take_append_block_append_drop (items : List α) (start length : Nat) :
    items.take start ++ ((items.drop start).take length ++ items.drop (start + length)) =
      items := by
  rw [← List.drop_drop, List.take_append_drop, List.take_append_drop]

private theorem flatMap_old_changeUnlessEmpty (old new : List α) :
    (changeUnlessEmpty old new).flatMap Hunk.old = old := by
  unfold changeUnlessEmpty
  split
  · rename_i empty
    exact (List.isEmpty_iff.mp (Bool.and_eq_true_iff.mp empty).1).symm
  · simp [Hunk.old]

private theorem flatMap_new_changeUnlessEmpty (old new : List α) :
    (changeUnlessEmpty old new).flatMap Hunk.new = new := by
  unfold changeUnlessEmpty
  split
  · rename_i empty
    exact (List.isEmpty_iff.mp (Bool.and_eq_true_iff.mp empty).2).symm
  · simp [Hunk.new]

private theorem apart_changeUnlessEmpty (old new : List α) : Apart (changeUnlessEmpty old new) := by
  unfold changeUnlessEmpty
  split
  · exact .nil
  · exact .singleton _

variable [BEq α]

private theorem flatMap_old_hunksWithin (depth : Nat) (old new : List α) :
    (hunksWithin depth old new).flatMap Hunk.old = old := by
  induction depth generalizing old new with
  | zero => exact flatMap_old_changeUnlessEmpty old new
  | succ depth ih =>
    simp only [hunksWithin]
    split
    · exact flatMap_old_changeUnlessEmpty old new
    · rw [List.flatMap_append, List.flatMap_cons, ih, ih]
      exact take_append_block_append_drop old _ _

/-- The hunks tile the old sequence. -/
theorem flatMap_old_hunks (old new : List α) : (hunks old new).flatMap Hunk.old = old :=
  flatMap_old_hunksWithin _ old new

variable [LawfulBEq α]

private theorem flatMap_new_hunksWithin (depth : Nat) (old new : List α) :
    (hunksWithin depth old new).flatMap Hunk.new = new := by
  induction depth generalizing old new with
  | zero => exact flatMap_new_changeUnlessEmpty old new
  | succ depth ih =>
    simp only [hunksWithin]
    split
    · exact flatMap_new_changeUnlessEmpty old new
    · have same := (longestBlock_common old new).same
      rw [List.flatMap_append, List.flatMap_cons, ih, ih, Hunk.new, same]
      exact take_append_block_append_drop new _ _

private theorem apart_hunksWithin (depth : Nat) (old new : List α) :
    Apart (hunksWithin depth old new) := by
  induction depth generalizing old new with
  | zero => exact apart_changeUnlessEmpty old new
  | succ depth ih =>
    simp only [hunksWithin]
    split
    · exact apart_changeUnlessEmpty old new
    · rename_i found
      refine (ih _ _).insert_keep (ih _ _) ?_
      intro none
      have length := congrArg List.length none
      have fits := (longestBlock_common old new).oldFits
      rw [List.length_take, List.length_drop, List.length_nil] at length
      omega

/-- The hunks tile the new sequence. -/
theorem flatMap_new_hunks (old new : List α) : (hunks old new).flatMap Hunk.new = new :=
  flatMap_new_hunksWithin _ old new

theorem apart_hunks (old new : List α) : Apart (hunks old new) :=
  apart_hunksWithin _ old new

private theorem hunksWithin_nil (depth : Nat) : hunksWithin depth ([] : List α) [] = [] := by
  cases depth with
  | zero => rfl
  | succ depth =>
    rw [hunksWithin, longestBlock_self]
    rfl

/-- A sequence compared with itself is kept. -/
theorem hunks_self {items : List α} (nonempty : items ≠ []) :
    hunks items items = [.keep items] := by
  obtain ⟨item, rest, rfl⟩ := List.exists_cons_of_ne_nil nonempty
  have kept : (item :: rest).take (rest.length + 1) = item :: rest :=
    List.take_of_length_le (Nat.le_refl _)
  have left : (item :: rest).drop (rest.length + 1) = [] :=
    List.drop_eq_nil_of_le (Nat.le_refl _)
  rw [hunks, List.length_cons, hunksWithin, longestBlock_self]
  simp only [List.length_cons, Nat.succ_ne_zero, if_false, Nat.zero_add, List.take_zero,
    List.drop_zero, kept, left, hunksWithin_nil, List.nil_append]

end NextEdit.Diff
