import Mathlib.Data.List.DropRight
import Mathlib.Order.Bounds.Basic
import NextEdit.Legacy.Instruction
import NextEdit.Proofs.Budget.History

/-! The newest changes that a budget pays. A scan from the last item backwards that stops at the
first item it cannot pay keeps the longest end of the list that the budget pays as a whole: a shorter
end never costs more. Both histories, with diffs and in prose, are such scans. -/
namespace NextEdit

section Longest

variable {α : Type} {cost : α → Nat} {budget remaining : Int} {fixed : Nat}

/-- How many of the last items a budget can pay behind a fixed cost. None at all is always possible,
and then the fixed cost is saved too. -/
def affordableCounts (cost : α → Nat) (fixed : Nat) (budget : Int) (items : List α) : Set Nat :=
  {count | count ≤ items.length ∧
    (count = 0 ∨ (fixed + totalCost cost (items.rtake count) : Int) ≤ budget)}

theorem takeLastWithin_eq_rtake (budget : Int) (items : List α) :
    takeLastWithin cost budget items = items.rtake (takeLastWithin cost budget items).length :=
  List.suffix_iff_eq_drop.mp (takeLastWithin_isSuffix cost budget items)

theorem totalCost_rtake (count : Nat) (items : List α) :
    totalCost cost (items.rtake count) = totalCost cost (items.reverse.take count) := by
  rw [List.rtake_eq_reverse_take_reverse, totalCost_reverse]

/-- With what the fixed cost leaves, the scan keeps as many of the last items as can be paid. -/
theorem isGreatest_length_takeLastWithin (left : fixed + remaining = budget) (items : List α) :
    IsGreatest (affordableCounts cost fixed budget items)
      (takeLastWithin cost remaining items).length := by
  constructor
  · refine ⟨(takeLastWithin_isSuffix cost remaining items).length_le, ?_⟩
    rw [totalCost_rtake, takeLastWithin, List.length_reverse]
    rcases length_takeWithin_eq_zero_or_paid remaining items.reverse with nothing | paid
    · exact .inl nothing
    · exact .inr (by omega)
  · intro count affordable
    obtain ⟨inside, free | paid⟩ := affordable
    · exact free ▸ Nat.zero_le _
    · rw [totalCost_rtake] at paid
      rw [takeLastWithin, List.length_reverse]
      apply le_length_takeWithin
      · rwa [List.length_reverse]
      · omega

theorem takeLastWithin_of_nonpos (costly : ∀ item, 0 < cost item) (spent : budget ≤ 0)
    (items : List α) : takeLastWithin cost budget items = [] := by
  apply List.reverse_eq_nil_iff.mpr
  cases items.reverse with
  | nil => rfl
  | cons item rest =>
    have price := costly item
    rw [takeWithin, if_neg (by omega)]

end Longest

namespace History

variable (fileMarker name : Text)

/-- The test of the header hides no change: where the header leaves nothing, no change is paid. -/
theorem kept_eq_takeLastWithin (headerLine : Text) (budget : Int) (changes : List Change) :
    kept headerLine budget changes =
      takeLastWithin Change.diffTokens (budget - headerLine.tokens) changes := by
  rw [kept]
  split
  · rename_i spent
    symm
    apply takeLastWithin_of_nonpos Change.diffTokens_pos
    omega
  · rfl

/-- A history keeps the longest end of the changes that the budget pays, the header included, and
shows each of them whole and oldest first. The history in prose does so without a header. -/
theorem longest_affordable_end (budget : Int) (changes : List Change) :
    let shown := sectionWithin fileMarker name budget changes
    let headerLine := header fileMarker name
    IsGreatest (affordableCounts Change.diffTokens headerLine.tokens budget changes)
        shown.included ∧
      shown.text =
        (if shown.included = 0 then []
          else headerLine ++ (changes.rtake shown.included).flatMap Change.diffBlock) ∧
      IsGreatest
        (affordableCounts (fun change => (Legacy.describe change).tokens) 0 budget changes)
        (Legacy.historyWithin budget changes).2 := by
  intro shown headerLine
  have count : shown.included = (kept headerLine budget changes).length := rfl
  have scan := kept_eq_takeLastWithin headerLine budget changes
  refine ⟨?_, ?_, ?_⟩
  · rw [count, scan]
    exact isGreatest_length_takeLastWithin (by omega) changes
  · have last : changes.rtake shown.included = kept headerLine budget changes := by
      rw [count, scan]
      exact (takeLastWithin_eq_rtake _ changes).symm
    rw [last, count]
    change whole fileMarker name (kept headerLine budget changes) = _
    cases kept headerLine budget changes with
    | nil => rfl
    | cons change rest => rfl
  · exact isGreatest_length_takeLastWithin (by omega) changes

end History

end NextEdit
