import NextEdit.History
import NextEdit.Proofs.Budget.Greedy

/-! What the history section costs. It is the whole history of the changes it keeps; these cost no
more than the budget, and a budget that pays for the whole history keeps every change. -/
namespace NextEdit

/-- A diff is never free: its two header lines alone take twelve bytes. -/
theorem Change.diffTokens_pos (change : Change) : 0 < change.diffTokens := by
  have lines : 3 ≤ Text.byteCount "--- a".toList := by decide
  apply Text.tokens_pos
  simp only [Change.diffBlock, Text.byteCount_append]
  omega

namespace History

/-- The history without a budget: nothing where nothing changed, not even the header. -/
def whole (fileMarker name : Text) (changes : List Change) : Text :=
  if changes.isEmpty then [] else header fileMarker name ++ changes.flatMap Change.diffBlock

variable (fileMarker name : Text)

theorem sectionWithin_text (budget : Int) (changes : List Change) :
    (sectionWithin fileMarker name budget changes).text =
      whole fileMarker name (kept (header fileMarker name) budget changes) := rfl

theorem kept_suffix (headerLine : Text) (budget : Int) (changes : List Change) :
    kept headerLine budget changes <:+ changes := by
  rw [kept]
  split
  · exact List.nil_suffix
  · exact takeLastWithin_isSuffix _ _ _

theorem kept_of_nonpos (headerLine : Text) (spent : budget ≤ 0) (changes : List Change) :
    kept headerLine budget changes = [] := by
  rw [kept, if_pos (by omega)]

/-- What a history is charged: its header and each of its changes. -/
def charge (changes : List Change) : Nat :=
  if changes.isEmpty then 0
  else (header fileMarker name).tokens + totalCost Change.diffTokens changes

/-- The bytes of a history that nothing is charged for. -/
def spare (changes : List Change) : Nat :=
  if changes.isEmpty then 0
  else (header fileMarker name).spare + totalCost (fun change => change.diffBlock.spare) changes

theorem byteCount_whole (changes : List Change) :
    (whole fileMarker name changes).byteCount =
      3 * charge fileMarker name changes + spare fileMarker name changes := by
  rw [whole, charge, spare]
  split
  · rfl
  · have line := Text.byteCount_eq_tokens (header fileMarker name)
    have diffs : _ = 3 * totalCost Change.diffTokens changes + _ :=
      Text.byteCount_flatMap Change.diffBlock changes
    rw [Text.byteCount_append]
    omega

theorem spare_le (changes : List Change) :
    spare fileMarker name changes ≤ 2 * (changes.length + 1) := by
  rw [spare]
  split
  · exact Nat.zero_le _
  · have line := Text.spare_le (header fileMarker name)
    have diffs := Text.totalCost_spare_le Change.diffBlock changes
    omega

theorem charge_kept_le (funded : 0 ≤ budget) (changes : List Change) :
    (charge fileMarker name (kept (header fileMarker name) budget changes) : Int) ≤ budget := by
  rw [charge, kept]
  by_cases spent : budget ≤ (header fileMarker name).tokens
  · rw [if_pos spent]
    exact funded
  · rw [if_neg spent]
    split
    · exact funded
    · have paid := totalCost_takeLastWithin_le Change.diffTokens changes
        (Int.sub_nonneg_of_le (Int.le_of_lt (Int.not_le.mp spent)))
      omega

/-- The section has at most three bytes for a token of its budget, two more for its header and two
more for each change. -/
theorem byteCount_sectionWithin_le (funded : 0 ≤ budget) (changes : List Change) :
    ((sectionWithin fileMarker name budget changes).text.byteCount : Int) ≤
      3 * budget + 2 * ((sectionWithin fileMarker name budget changes).included + 1) := by
  have paid := charge_kept_le fileMarker name funded changes
  have lost := spare_le fileMarker name (kept (header fileMarker name) budget changes)
  rw [sectionWithin_text, byteCount_whole]
  change _ ≤ 3 * budget + 2 * (((kept (header fileMarker name) budget changes).length : Int) + 1)
  omega

/-- Where a header costs something, a history that shows a change is never free. -/
theorem tokens_eq_zero_iff (marked : 3 ≤ fileMarker.byteCount) (budget : Int)
    (changes : List Change) :
    (sectionWithin fileMarker name budget changes).tokens = 0 ↔
      (sectionWithin fileMarker name budget changes).included = 0 := by
  change (whole fileMarker name (kept (header fileMarker name) budget changes)).tokens = 0 ↔
    (kept (header fileMarker name) budget changes).length = 0
  cases kept (header fileMarker name) budget changes with
  | nil => exact iff_of_true (Nat.zero_div _) rfl
  | cons change rest =>
    have shown : 0 < (whole fileMarker name (change :: rest)).tokens := by
      apply Text.tokens_pos
      simp only [whole, List.isEmpty_cons, Bool.false_eq_true, if_false, header,
        Text.byteCount_append]
      omega
    exact iff_of_false (Nat.ne_of_gt shown) (Nat.succ_ne_zero _)

theorem sectionWithin_of_nonpos (spent : budget ≤ 0) (changes : List Change) :
    sectionWithin fileMarker name budget changes = { total := changes.length } := by
  simp only [sectionWithin, kept_of_nonpos _ spent, List.isEmpty_nil, if_true, List.length_nil]

/-- A budget that pays for the whole history keeps every change. -/
theorem kept_eq_self {changes : List Change}
    (ample : ((whole fileMarker name changes).tokens : Int) ≤ budget) :
    kept (header fileMarker name) budget changes = changes := by
  cases changes with
  | nil => exact List.suffix_nil.mp (kept_suffix _ _ _)
  | cons change rest =>
    have free := change.diffTokens_pos
    have size := byteCount_whole fileMarker name (change :: rest)
    have charged : charge fileMarker name (change :: rest) ≤
        (whole fileMarker name (change :: rest)).tokens := by
      rw [Text.tokens_eq_of_byteCount size]
      exact Nat.le_add_right _ _
    change (header fileMarker name).tokens + totalCost Change.diffTokens (change :: rest) ≤ _
      at charged
    have first := totalCost_cons Change.diffTokens change rest
    rw [kept, if_neg (by omega)]
    exact takeLastWithin_eq_self (by omega)

end History

end NextEdit
