import Mathlib.Data.List.TakeWhile
import NextEdit.CommandLine.Options

/-! What is given on a command line is read back: options under their long names, the dashes that
end them, operands. -/
namespace NextEdit.CommandLine

variable {Key : Type} {key : Key} {spec : OptionSpec Key} {specs : List (OptionSpec Key)}

namespace OptionSpec

/-- Among all options, this one alone has the long name, and it is read as one. -/
structure Spells (spec : OptionSpec Key) (key : Key) (specs : List (OptionSpec Key)) : Prop where
  named : spec.key = key
  found : (specs.find? fun other => other.long == spec.long) = some spec
  dash : spec.long.head? = some '-'
  long : 2 < spec.long.length
  plain : '=' ∉ spec.long

/-- An option under its long name; a switch has no value to write. -/
def written (spec : OptionSpec Key) (value : Text) : List Text :=
  if spec.takesValue then [spec.long, value] else [spec.long]

theorem Spells.readOption (spells : spec.Spells key specs) :
    readOption specs spec.long =
      some (if spec.takesValue then { given := [], open? := some key }
        else { given := [(key, [])], open? := none }) := by
  have name : spec.long.takeWhile (· != '=') = spec.long := by
    apply List.takeWhile_eq_self_iff.mpr
    intro char member
    exact bne_iff_ne.mpr fun same => spells.plain (same ▸ member)
  simp only [CommandLine.readOption, name, Nat.lt_irrefl, if_false, spells.found, spells.named]
  split <;> rfl

theorem Spells.readArguments (spells : spec.Spells key specs)
    (fits : spec.takesValue = true ∨ value = [])
    (reads : readArguments specs mixed rest = some (given, operands)) :
    readArguments specs mixed (spec.written value ++ rest) =
      some ((key, value) :: given, operands) := by
  have notEnd : spec.long ≠ ['-', '-'] := by
    intro same
    have long := spells.long
    rw [same] at long
    exact absurd long (by decide)
  have isOption : spec.long.head? = some '-' ∧ 1 < spec.long.length :=
    ⟨spells.dash, Nat.lt_of_succ_lt spells.long⟩
  cases takes : spec.takesValue with
  | true =>
    simp [written, takes, CommandLine.readArguments, notEnd, isOption, spells.readOption, reads]
  | false =>
    have empty : value = [] := fits.resolve_left (by simp [takes])
    simp [written, takes, empty, CommandLine.readArguments, notEnd, isOption, spells.readOption,
      reads]

end OptionSpec

/-- Options and operands as a command line gives them. -/
def writeArguments (spec : Key → OptionSpec Key) (given : Given Key) (operands : List Text) :
    List Text :=
  (given.flatMap fun (key, value) => (spec key).written value) ++ ['-', '-'] :: operands

theorem readArguments_writeArguments {spec : Key → OptionSpec Key} {given : Given Key}
    (spells : ∀ option ∈ given, (spec option.1).Spells option.1 specs)
    (fits : ∀ option ∈ given, (spec option.1).takesValue = true ∨ option.2 = [])
    (operands : List Text) :
    readArguments specs mixed (writeArguments spec given operands) = some (given, operands) := by
  induction given with
  | nil => simp [writeArguments, readArguments]
  | cons option rest ih =>
    obtain ⟨first, later⟩ := List.forall_mem_cons.mp spells
    obtain ⟨firstFits, laterFit⟩ := List.forall_mem_cons.mp fits
    rw [writeArguments, List.flatMap_cons, List.append_assoc]
    exact first.readArguments firstFits (ih later laterFit)

/-- An operand ends the options, where they may not follow it. -/
theorem readArguments_operand (operand : argument.head? ≠ some '-') (rest : List Text) :
    readArguments specs false (argument :: rest) = some ([], argument :: rest) := by
  have notEnd : argument ≠ ['-', '-'] := fun same => operand (same ▸ rfl)
  simp [readArguments, notEnd, operand]

end NextEdit.CommandLine
