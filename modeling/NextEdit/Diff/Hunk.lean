import NextEdit.Text.Basic

/-! Differences between two sequences, by their longest common block: what is left of it and what is
right of it are compared in the same way. Of equally long blocks the one that starts first in the
old sequence counts, and of those the one that starts first in the new. -/
namespace NextEdit.Diff

/-- A stretch of the comparison: items in both sequences, or old items and what replaces them. -/
inductive Hunk (α : Type)
  | keep (items : List α)
  | change (old new : List α)

variable {α : Type}

namespace Hunk

def old : Hunk α → List α
  | keep items => items
  | change old _ => old

def new : Hunk α → List α
  | keep items => items
  | change _ new => new

end Hunk

/-- A block of `length` items that starts at `oldStart` and at `newStart`. -/
structure Block where
  oldStart : Nat
  newStart : Nat
  length : Nat

variable [BEq α]

/-- From the lengths of the blocks that end at the last old item and at each new item, those for
the next old item; `diagonal` is the length one place up and to the left. -/
def nextLengths (item : α) : (diagonal : Nat) → List Nat → List α → List Nat
  | diagonal, above :: lengths, other :: rest =>
    (if item == other then diagonal + 1 else 0) :: nextLengths item above lengths rest
  | _, _, _ => []

/-- The longer of the best block so far and the blocks that end at the current old item. -/
def longer (oldIndex : Nat) : (newIndex : Nat) → Block → List Nat → Block
  | _, best, [] => best
  | newIndex, best, length :: rest =>
    let best :=
      if best.length < length then
        { oldStart := oldIndex + 1 - length, newStart := newIndex + 1 - length, length }
      else best
    longer oldIndex (newIndex + 1) best rest

def longestFrom (new : List α) : (oldIndex : Nat) → List Nat → Block → List α → Block
  | _, _, best, [] => best
  | oldIndex, lengths, best, item :: rest =>
    let lengths := nextLengths item 0 lengths new
    longestFrom new (oldIndex + 1) lengths (longer oldIndex 0 best lengths) rest

/-- The longest block that both sequences have. -/
def longestBlock (old new : List α) : Block :=
  longestFrom new 0 (new.map fun _ => 0) { oldStart := 0, newStart := 0, length := 0 } old

def changeUnlessEmpty (old new : List α) : List (Hunk α) :=
  if old.isEmpty && new.isEmpty then [] else [.change old new]

/-- Compares with a bound on the depth; each block takes an old item, so their number is enough. -/
def hunksWithin : (depth : Nat) → (old new : List α) → List (Hunk α)
  | 0, old, new => changeUnlessEmpty old new
  | depth + 1, old, new =>
    let block := longestBlock old new
    if block.length = 0 then changeUnlessEmpty old new
    else
      hunksWithin depth (old.take block.oldStart) (new.take block.newStart) ++
        .keep ((old.drop block.oldStart).take block.length) ::
        hunksWithin depth (old.drop (block.oldStart + block.length))
          (new.drop (block.newStart + block.length))

/-- The differences between two sequences, in order. -/
def hunks (old new : List α) : List (Hunk α) :=
  hunksWithin old.length old new

end NextEdit.Diff
