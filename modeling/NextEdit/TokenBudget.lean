import NextEdit.Text.Basic

/-! Token budgets. Every budget counts a token for three bytes of UTF-8, rounded down; the models
were tuned to this ratio. `takeWithin` keeps the longest beginning of a list that a budget pays. -/
namespace NextEdit

def bytesPerToken : Nat := 3

/-- The tokens of so many bytes; a negative count rounds down as well. -/
def tokensOfBytes (bytes : Int) : Int :=
  Int.fdiv bytes bytesPerToken

def Text.tokens (text : Text) : Nat :=
  text.byteCount / bytesPerToken

/-- Keeps items while the budget covers their cost, and stops at the first it does not cover. -/
def takeWithin (cost : α → Nat) : Int → List α → List α
  | _, [] => []
  | budget, item :: rest =>
    if (cost item : Int) ≤ budget then item :: takeWithin cost (budget - cost item) rest else []

/-- The longest end of a list that the budget pays, counted back from the last item. -/
def takeLastWithin (cost : α → Nat) (budget : Int) (items : List α) : List α :=
  (takeWithin cost budget items.reverse).reverse

def totalCost (cost : α → Nat) : List α → Nat
  | [] => 0
  | item :: rest => cost item + totalCost cost rest

end NextEdit
