import NextEdit.TokenBudget

/-! A rendered part of a prompt, with the account of what it took in. -/
namespace NextEdit

structure Section where
  text : Text := []
  included : Nat := 0
  total : Nat
  excerpts : Nat := 0
deriving DecidableEq

namespace Section

def tokens (part : Section) : Nat :=
  part.text.tokens

def dropped (part : Section) : Nat :=
  part.total - part.included

end Section

end NextEdit
