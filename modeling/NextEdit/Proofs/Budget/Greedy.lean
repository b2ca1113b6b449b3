import NextEdit.TokenBudget

/-! Greedy choice under a budget. What is kept is a beginning of the list, costs no more than the
budget, and is the whole list as soon as the budget pays for all of it. Costs are tokens, which
round down piece by piece: a sequence of pieces has three bytes for each token charged for it, and
at most two more bytes for each piece. -/
namespace NextEdit

section Greedy

variable {α : Type} (cost : α → Nat)

@[simp] theorem totalCost_nil : totalCost cost [] = 0 := rfl

@[simp] theorem totalCost_cons (item : α) (rest : List α) :
    totalCost cost (item :: rest) = cost item + totalCost cost rest := rfl

@[simp] theorem totalCost_append (left right : List α) :
    totalCost cost (left ++ right) = totalCost cost left + totalCost cost right := by
  induction left with
  | nil => exact (Nat.zero_add _).symm
  | cons item rest ih => rw [List.cons_append, totalCost_cons, ih, totalCost_cons, Nat.add_assoc]

theorem totalCost_reverse (items : List α) :
    totalCost cost items.reverse = totalCost cost items := by
  induction items with
  | nil => rfl
  | cons item rest ih =>
    rw [List.reverse_cons, totalCost_append, ih, totalCost_cons, totalCost_cons, totalCost_nil]
    omega

theorem totalCost_replicate (count : Nat) (item : α) :
    totalCost cost (List.replicate count item) = count * cost item := by
  induction count with
  | zero => exact (Nat.zero_mul _).symm
  | succ count ih =>
    rw [List.replicate_succ, totalCost_cons, ih, Nat.succ_mul, Nat.add_comm]

theorem takeWithin_isPrefix (budget : Int) (items : List α) :
    takeWithin cost budget items <+: items := by
  induction items generalizing budget with
  | nil => exact List.prefix_refl _
  | cons item rest ih =>
    rw [takeWithin]
    split
    · exact (List.prefix_cons_inj item).mpr (ih _)
    · exact List.nil_prefix

theorem totalCost_takeWithin_le (items : List α) (funded : 0 ≤ budget) :
    (totalCost cost (takeWithin cost budget items) : Int) ≤ budget := by
  induction items generalizing budget with
  | nil => exact funded
  | cons item rest ih =>
    rw [takeWithin]
    split
    · rename_i paid
      have remaining := ih (Int.sub_nonneg_of_le paid)
      rw [totalCost_cons]
      omega
    · exact funded

variable {cost}

theorem takeWithin_eq_self {items : List α} (enough : (totalCost cost items : Int) ≤ budget) :
    takeWithin cost budget items = items := by
  induction items generalizing budget with
  | nil => rfl
  | cons item rest ih =>
    rw [totalCost_cons] at enough
    rw [takeWithin, if_pos (by omega), ih (by omega)]

theorem nonneg_of_takeWithin_ne_nil {items : List α} (kept : takeWithin cost budget items ≠ []) :
    0 ≤ budget := by
  cases items with
  | nil => exact absurd rfl kept
  | cons item rest =>
    apply Int.not_lt.mp
    intro spent
    apply kept
    rw [takeWithin, if_neg (by omega)]

/-- The budget pays what is kept, unless nothing is. -/
theorem length_takeWithin_eq_zero_or_paid (budget : Int) (items : List α) :
    (takeWithin cost budget items).length = 0 ∨
      (totalCost cost (items.take (takeWithin cost budget items).length) : Int) ≤ budget := by
  by_cases nothing : takeWithin cost budget items = []
  · exact .inl (List.length_eq_zero_iff.mpr nothing)
  · right
    rw [← List.prefix_iff_eq_take.mp (takeWithin_isPrefix cost budget items)]
    exact totalCost_takeWithin_le cost items (nonneg_of_takeWithin_ne_nil nothing)

/-- A beginning that the budget pays is never cut short. -/
theorem le_length_takeWithin {items : List α} (inside : count ≤ items.length)
    (paid : (totalCost cost (items.take count) : Int) ≤ budget) :
    count ≤ (takeWithin cost budget items).length := by
  induction items generalizing count budget with
  | nil => exact inside
  | cons item rest ih =>
    cases count with
    | zero => exact Nat.zero_le _
    | succ count =>
      rw [List.take_succ_cons, totalCost_cons] at paid
      rw [takeWithin, if_pos (by omega)]
      apply Nat.succ_le_succ
      apply ih
      · exact Nat.le_of_succ_le_succ inside
      · omega

variable (cost)

theorem takeLastWithin_isSuffix (budget : Int) (items : List α) :
    takeLastWithin cost budget items <:+ items := by
  have kept := List.reverse_suffix.mpr (takeWithin_isPrefix cost budget items.reverse)
  rwa [List.reverse_reverse] at kept

theorem totalCost_takeLastWithin_le (items : List α) (funded : 0 ≤ budget) :
    (totalCost cost (takeLastWithin cost budget items) : Int) ≤ budget := by
  rw [takeLastWithin, totalCost_reverse]
  exact totalCost_takeWithin_le cost items.reverse funded

variable {cost}

theorem takeLastWithin_eq_self {items : List α} (enough : (totalCost cost items : Int) ≤ budget) :
    takeLastWithin cost budget items = items := by
  rw [← totalCost_reverse] at enough
  rw [takeLastWithin, takeWithin_eq_self enough, List.reverse_reverse]

end Greedy

namespace Text

/-- The bytes of a text beyond its tokens, which rounding down loses. -/
def spare (text : Text) : Nat :=
  text.byteCount % bytesPerToken

theorem byteCount_eq_tokens (text : Text) : text.byteCount = 3 * text.tokens + text.spare := by
  rw [tokens, spare, bytesPerToken]
  omega

theorem spare_le (text : Text) : text.spare ≤ 2 := by
  rw [spare, bytesPerToken]
  omega

theorem mul_tokens_le (text : Text) : 3 * text.tokens ≤ text.byteCount := by
  rw [tokens, bytesPerToken]
  omega

theorem byteCount_le_tokens (text : Text) : text.byteCount ≤ 3 * text.tokens + 2 := by
  rw [tokens, bytesPerToken]
  omega

theorem tokens_pos {text : Text} (long : 3 ≤ text.byteCount) : 0 < text.tokens := by
  rw [tokens, bytesPerToken]
  omega

/-- Pieces charged one by one measure a token more for every three bytes they lose together. -/
theorem tokens_eq_of_byteCount {text : Text} (size : text.byteCount = 3 * charge + lost) :
    text.tokens = charge + lost / 3 := by
  rw [tokens, bytesPerToken, size]
  omega

variable {α : Type} (render : α → Text)

theorem byteCount_flatMap (items : List α) :
    byteCount (items.flatMap render) = 3 * totalCost (fun item => (render item).tokens) items +
      totalCost (fun item => (render item).spare) items := by
  induction items with
  | nil => rfl
  | cons item rest ih =>
    have first := byteCount_eq_tokens (render item)
    rw [totalCost_cons, totalCost_cons, List.flatMap_cons, byteCount_append]
    omega

/-- Every piece loses at most two bytes to rounding. -/
theorem totalCost_spare_le (items : List α) :
    totalCost (fun item => (render item).spare) items ≤ 2 * items.length := by
  induction items with
  | nil => exact Nat.le_refl _
  | cons item rest ih =>
    have first := spare_le (render item)
    rw [totalCost_cons, List.length_cons]
    omega

end Text

end NextEdit
