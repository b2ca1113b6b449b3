import Mathlib.Data.List.DropRight
import NextEdit.Settings

/-! Settings as the environment gives them. Whatever the variables hold, no budget is negative and the
default format is a word: it is there, and no padding surrounds it. -/
namespace NextEdit

namespace Text

variable {among : Char → Bool} {text : Text}

/-- The text is not empty, and neither its first nor its last character is of the class. -/
structure IsTrimmed (among : Char → Bool) (text : Text) : Prop where
  nonempty : text ≠ []
  first : ∀ char ∈ text.head?, among char = false
  last : ∀ char ∈ text.getLast?, among char = false

theorem trim_eq_rdropWhile (among : Char → Bool) (text : Text) :
    trim among text = (text.dropWhile among).rdropWhile among := rfl

theorem isTrimmed_trim (left : trim among text ≠ []) : IsTrimmed among (trim among text) := by
  rw [trim_eq_rdropWhile] at left ⊢
  refine ⟨left, ?_, ?_⟩
  · intro char starts
    -- The end is trimmed off a text that starts where the padding in front ends.
    obtain ⟨rest, kept⟩ := List.rdropWhile_prefix among (text.dropWhile among)
    have front : (text.dropWhile among).head? = some char := by
      rw [← kept, List.head?_append, Option.mem_def.mp starts]
      rfl
    have stops := List.head?_dropWhile_not among text
    rw [front] at stops
    simpa using stops
  · intro char ends
    have stops := List.rdropWhile_last_not among (text.dropWhile among) left
    rw [List.getLast?_eq_some_getLast left] at ends
    rw [Option.mem_some_iff.mp ends] at stops
    simpa using stops

end Text

namespace Environment

variable (environment : Environment) (name : Text)

theorem natural_nonneg (funded : 0 ≤ fallback) :
    0 ≤ environment.natural name fallback := by
  unfold natural
  split
  · split
    · assumption
    · exact funded
  · exact funded

theorem isTrimmed_word (named : Text.IsTrimmed Text.isPadding fallback) :
    Text.IsTrimmed Text.isPadding (environment.word name fallback) := by
  unfold word
  dsimp only
  split
  · exact named
  · rename_i left
    apply Text.isTrimmed_trim
    intro empty
    exact left (List.isEmpty_iff.mpr empty)

end Environment

namespace Settings

/-- Settings as they are when they are read, before anyone assigns to them. -/
structure IsSound (settings : Settings) : Prop where
  maxPromptTokens : 0 ≤ settings.maxPromptTokens
  legacyMaxEventTokens : 0 ≤ settings.legacyMaxEventTokens
  defaultFormat : Text.IsTrimmed Text.isPadding settings.defaultFormat

theorem isSound_ofEnvironment (environment : Environment) : (ofEnvironment environment).IsSound := by
  constructor
  · exact environment.natural_nonneg _ (by decide)
  · exact environment.natural_nonneg _ (by decide)
  · apply environment.isTrimmed_word
    have first : default.defaultFormat.head? = some 'V' := rfl
    have last : default.defaultFormat.getLast? = some 'n' := rfl
    constructor
    · intro empty
      rw [empty] at first
      cases first
    · intro char starts
      rw [first] at starts
      cases starts
      rfl
    · intro char ends
      rw [last] at ends
      cases ends
      rfl

end Settings

end NextEdit
