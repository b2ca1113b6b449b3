import Mathlib.Data.List.TakeWhile
import NextEdit.CommandLine.Command
import NextEdit.Proofs.Console.Controls
import NextEdit.Proofs.Json.Number

/-! What hosts have in common. Which texts are integers is up to the parser of options, and parsers
differ; but a budget that is written as a plain numeral is read by all of them. A message arrives as it
is on a terminal, and elsewhere where no control sequence occurs in it. -/
namespace NextEdit

namespace Numeral

variable {value : Nat}

theorem toNat_of_isDigit {char : Char} (digit : char.isDigit = true) :
    48 ≤ char.toNat ∧ char.toNat < 58 := by
  have bounds := Char.isDigit_iff_toNat.mp digit
  exact ⟨bounds.1, Nat.lt_succ_of_le bounds.2⟩

/-- No numeral starts with a sign. -/
theorem ofNat_ne_cons {char : Char} (foreign : char.isDigit = false) (rest : Text) :
    ofNat value ≠ char :: rest := by
  intro starts
  have digit := isDigit_of_mem_ofNat (starts ▸ List.mem_cons_self : char ∈ ofNat value)
  rw [foreign] at digit
  cases digit

theorem readExact_ofNat (short : IsShort value) : readExact (ofNat value) = .ok value := by
  have digits : (ofNat value).takeWhile Char.isDigit = ofNat value :=
    List.takeWhile_eq_self_iff.mpr fun _ => isDigit_of_mem_ofNat
  have reads : readUnsigned false (ofNat value) = .ok value := by
    have full : ¬ ((ofNat value).isEmpty = true ∨
        ((ofNat value).head? = some '0' ∧ (ofNat value).length ≠ 1)) := by
      rintro (empty | ⟨zero, long⟩)
      · exact ofNat_ne_nil value (List.isEmpty_iff.mp empty)
      · exact (no_leading_zero value).elim (absurd zero) long
    have few : ¬ digitLimit < (ofNat value).length := Nat.not_lt.mpr short
    simp only [readUnsigned, digits, if_neg full, if_neg few, Nat.lt_irrefl, if_false]
    simp [ofNat]
  unfold readExact
  split
  · rename_i rest starts
    exact absurd starts (ofNat_ne_cons rfl rest)
  · exact reads

theorem digit?_of_isDigit {char : Char} (digit : char.isDigit = true) :
    digit? char = some (char.toNat - 48) := by
  have bounds := toNat_of_isDigit digit
  simp [digit?, zeros, bounds]

theorem digits?_of_isDigit {text : Text} (digits : ∀ char ∈ text, char.isDigit = true)
    (filled : text ≠ []) : digits? text = some (text.map fun char => char.toNat - 48) := by
  induction text using digits?.induct with
  | case1 => exact absurd rfl filled
  | case2 last => simp [digits?, digit?_of_isDigit (digits last List.mem_cons_self)]
  | case3 char rest _ =>
    have underscore := digits '_' (List.mem_cons_of_mem char List.mem_cons_self)
    exact absurd underscore (by decide)
  | case4 char rest more parted ih =>
    obtain ⟨first, later⟩ := List.forall_mem_cons.mp digits
    rw [digits?, digit?_of_isDigit first, ih later more]
    · rfl
    · exact more
    · exact parted

theorem natural?_ofNat (short : IsShort value) : natural? (ofNat value) = some value := by
  have reads := digits?_of_isDigit (fun _ => isDigit_of_mem_ofNat) (ofNat_ne_nil value)
  have few : (ofNat value).length ≤ digitLimit := short
  have folds : ((ofNat value).map fun char => char.toNat - 48).foldl
      (fun value digit => 10 * value + digit) 0 = value := by
    rw [List.foldl_map]
    exact Nat.ofDigitChars_toDigits (by decide) (by decide)
  simp [natural?, reads, few, folds]

theorem isBlank_of_isDigit {char : Char} (digit : char.isDigit = true) : Text.isBlank char = false := by
  have bounds := toNat_of_isDigit digit
  simp only [Text.isBlank]
  grind

theorem trim_ofNat (value : Nat) : Text.trim Text.isBlank (ofNat value) = ofNat value := by
  have solid {text : Text} (digits : ∀ char ∈ text, char.isDigit = true) :
      text.dropWhile Text.isBlank = text := by
    apply List.dropWhile_eq_self_iff.mpr
    intro filled
    simp [isBlank_of_isDigit (digits _ (List.getElem_mem filled))]
  have digits : ∀ char ∈ ofNat value, char.isDigit = true := fun _ => isDigit_of_mem_ofNat
  rw [Text.trim, solid digits, solid fun char member => digits char (List.mem_reverse.mp member),
    List.reverse_reverse]

theorem integer?_ofNat (short : IsShort value) : integer? (ofNat value) = some (value : Int) := by
  unfold integer?
  rw [trim_ofNat]
  split
  · rename_i rest starts
    exact absurd starts (ofNat_ne_cons rfl rest)
  · rename_i rest starts
    exact absurd starts (ofNat_ne_cons rfl rest)
  · rw [natural?_ofNat short]
    rfl

end Numeral

namespace CommandLine

/-- Plain numerals are read, as far as numerals are read at all. -/
def Host.ReadsNumerals (host : Host) : Prop :=
  ∀ value : Nat, Numeral.IsShort value → host.readInteger (Numeral.ofNat value) = some value

namespace Host

theorem readsNumerals_plain : plain.ReadsNumerals :=
  fun _ short => Numeral.integer?_ofNat short

theorem readsNumerals_lenient : lenient.ReadsNumerals := by
  intro value short
  simp [lenient, Numeral.readLenient, Numeral.readExact_ofNat short, Except.toOption]

/-- A budget that is written plainly is read. -/
theorem ReadsNumerals.budget?_ofNat {host : Host} (reads : host.ReadsNumerals) {budget : Nat}
    (short : Numeral.IsShort budget) : host.budget? (Numeral.ofNat budget) = some (budget : Int) := by
  simp [budget?, reads budget short]

/-- Beyond plain numerals the two hosts differ. -/
example : plain.budget? "5.0".toList = none ∧ lenient.budget? "5.0".toList = some 5 := by
  decide +kernel

end Host

namespace World

/-- Where no shell completes it, a command line is read. -/
theorem asked_eq_readCall {world : World} (alone : world.instruction? = none) :
    world.asked = readCall world.host := by
  funext arguments
  rw [asked, alone]

variable {world : World} {stream : Stream} {message : Text}

theorem echo_sublist (world : World) (stream : Stream) (message : Text) :
    (world.echo stream message).Sublist message := by
  unfold echo
  split
  · exact List.Sublist.refl _
  · exact Text.eraseFrom_sublist _ 0 _

theorem echo_eq_self_iff : world.echo stream message = message ↔
    world.host.isTerminal stream = true ∨
      ∀ code, Console.IsControl code → ¬ code <:+: message := by
  cases shown : world.host.isTerminal stream with
  | true => simp [echo, shown]
  | false =>
    simp only [echo, shown, Bool.false_eq_true, if_false, false_or]
    exact Console.withoutControls_eq_self_iff

end World

end CommandLine

end NextEdit
