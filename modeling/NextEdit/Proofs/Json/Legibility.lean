import NextEdit.Proofs.Json.RoundTrip

/-! What the reader gives is legible again: nothing in it is nested deeper than the reader went, and
its integers have no more digits than a reader takes. -/
namespace NextEdit

namespace Numeral

theorem ofDigitChars_lt {digits : Text} (all : ∀ char ∈ digits, char.isDigit = true) (start : Nat) :
    Nat.ofDigitChars 10 digits start < (start + 1) * Nat.pow 10 digits.length := by
  induction digits generalizing start with
  | nil => simp [Nat.ofDigitChars]
  | cons char digits ih =>
    have digit : char.toNat - '0'.toNat ≤ 9 := by
      have range := all char List.mem_cons_self
      simp only [Char.isDigit, Bool.and_eq_true, decide_eq_true_eq] at range
      have upper : char.toNat ≤ 57 := range.2
      exact Nat.sub_le_sub_right upper 48
    have later := ih (fun other member => all other (List.mem_cons_of_mem _ member))
      (10 * start + (char.toNat - '0'.toNat))
    rw [Nat.ofDigitChars_cons]
    refine Nat.lt_of_lt_of_le later ?_
    calc (10 * start + (char.toNat - '0'.toNat) + 1) * Nat.pow 10 digits.length
        ≤ ((start + 1) * 10) * Nat.pow 10 digits.length := Nat.mul_le_mul_right _ (by omega)
      _ = (start + 1) * Nat.pow 10 (digits.length + 1) := by
        rw [Nat.mul_assoc, Nat.pow_eq, Nat.pow_eq, Nat.pow_succ']

theorem isShort_of_lt {value : Int} (positive : 0 < count) (few : count ≤ digitLimit)
    (small : value.natAbs < Nat.pow 10 count) : IsShort value :=
  Nat.le_trans ((Nat.length_toDigits_le_iff (by decide) positive).mpr small) few

/-- A run of digits spells an integer of no more digits, whatever its sign. -/
theorem isShort_of_digits {digits : Text} (full : digits ≠ [])
    (all : ∀ char ∈ digits, char.isDigit = true) (few : digits.length ≤ digitLimit)
    (negative : Bool) :
    IsShort (if negative then -(Nat.ofDigitChars 10 digits 0 : Int) else Nat.ofDigitChars 10 digits 0) := by
  have small := ofDigitChars_lt all 0
  rw [Nat.zero_add, Nat.one_mul] at small
  apply isShort_of_lt (List.length_pos_of_ne_nil full) few
  cases negative with
  | false => exact small
  | true =>
    rw [if_pos rfl, Int.natAbs_neg]
    exact small

end Numeral

namespace Json

variable {text rest : Text}

theorem digits_of_readDigits (reads : readDigits text = some (digits, rest)) :
    digits ≠ [] ∧ ∀ char ∈ digits, char.isDigit = true := by
  simp only [readDigits] at reads
  split at reads
  · cases reads
  · rename_i full
    cases reads
    refine ⟨fun empty => full (List.isEmpty_iff.mpr empty), ?_⟩
    exact List.all_eq_true.mp List.all_takeWhile

theorem digits_of_readWhole (reads : readWhole text = some (digits, rest)) :
    digits ≠ [] ∧ (∀ char ∈ digits, char.isDigit = true) ∧ digits.length ≤ Numeral.digitLimit := by
  obtain ⟨here, few, _⟩ := readDigits_of_readWhole reads
  obtain ⟨full, all⟩ := digits_of_readDigits here
  exact ⟨full, all, few⟩

theorem legible_of_readUnsigned (reads : readUnsigned negative text = some (json, rest)) :
    Legible 0 json := by
  simp only [readUnsigned] at reads
  split at reads
  · cases reads
    trivial
  · obtain ⟨⟨whole, afterWhole⟩, readsWhole, reads⟩ := Option.bind_eq_some_iff.mp reads
    obtain ⟨⟨fraction, afterFraction⟩, _, reads⟩ := Option.bind_eq_some_iff.mp reads
    obtain ⟨⟨exponent, behind⟩, _, reads⟩ := Option.bind_eq_some_iff.mp reads
    obtain ⟨full, all, few⟩ := digits_of_readWhole readsWhole
    simp only at reads
    split at reads
    · rename_i none
      rw [Option.isNone_iff_eq_none] at none
      cases reads
      rw [none.1, Option.getD_none, List.append_nil]
      exact Numeral.isShort_of_digits full all few negative
    · cases reads
      trivial

theorem legible_of_readPlain (reads : readPlain text = some (json, rest)) : Legible 0 json := by
  simp only [readPlain] at reads
  split at reads
  · cases reads
    trivial
  · split at reads
    · cases reads
      trivial
    · split at reads
      · cases reads
        trivial
      · split at reads
        · cases reads
          trivial
        · unfold readNumber at reads
          split at reads <;> exact legible_of_readUnsigned reads

theorem exists_element_of_readUpTo {element : Reader α}
    (reads : readUpTo close element count text = some (values, rest)) (member : value ∈ values) :
    ∃ front back, element front = some (value, back) := by
  induction count generalizing text values rest with
  | zero => cases reads
  | succ count ih =>
    rw [readUpTo] at reads
    obtain ⟨⟨first, behind⟩, here, reads⟩ := Option.bind_eq_some_iff.mp reads
    simp only at reads
    split at reads
    · cases reads
    · split at reads
      · obtain ⟨⟨others, last⟩, later, same⟩ := Option.map_eq_some_iff.mp reads
        cases same
        rcases List.mem_cons.mp member with rfl | member
        · exact ⟨text, behind, here⟩
        · exact ih later member
      · split at reads
        · cases reads
          cases List.mem_singleton.mp member
          exact ⟨text, behind, here⟩
        · cases reads

theorem exists_item_of_readMember {item : Reader Json}
    (reads : readMember item text = some (member, rest)) :
    ∃ front back, item front = some (member.2, back) := by
  simp only [readMember] at reads
  split at reads
  · obtain ⟨⟨name, behind⟩, _, reads⟩ := Option.bind_eq_some_iff.mp reads
    simp only at reads
    split at reads
    · obtain ⟨⟨value, back⟩, here, same⟩ := Option.map_eq_some_iff.mp reads
      cases same
      exact ⟨_, back, here⟩
    · cases reads
  · cases reads

theorem exists_element_of_readEnclosed {element : Option (Reader α)}
    (reads : readEnclosed close element text = some (values, rest)) (member : value ∈ values) :
    ∃ reader front back, element = some reader ∧ reader front = some (value, back) := by
  unfold readEnclosed at reads
  split at reads
  · cases reads
  · split at reads
    · cases reads
      cases member
    · obtain ⟨reader, isReader, reads⟩ := Option.bind_eq_some_iff.mp reads
      obtain ⟨front, back, here⟩ := exists_element_of_readUpTo reads member
      exact ⟨reader, front, back, isReader, here⟩

/-- What the reader gives is flat, or a list or an object of what the inner reader gives. -/
theorem cases_of_readWith (reads : readWith item text = some (json, rest)) :
    Legible 0 json ∨
      (∃ items, json = list items ∧ ∀ value ∈ items, ∃ inner front back,
        item = some inner ∧ inner front = some (value, back)) ∨
      ∃ members, json = object members ∧ ∀ member ∈ members, ∃ inner front back,
        item = some inner ∧ inner front = some (member.2, back) := by
  unfold readWith at reads
  split at reads
  · obtain ⟨_, _, same⟩ := Option.map_eq_some_iff.mp reads
    cases same
    exact .inl trivial
  · obtain ⟨⟨items, behind⟩, readsItems, same⟩ := Option.map_eq_some_iff.mp reads
    cases same
    exact .inr (.inl ⟨items, rfl, fun value => exists_element_of_readEnclosed readsItems⟩)
  · obtain ⟨⟨members, behind⟩, readsMembers, same⟩ := Option.map_eq_some_iff.mp reads
    cases same
    refine .inr (.inr ⟨members, rfl, fun member isMember => ?_⟩)
    obtain ⟨reader, _, _, isReader, here⟩ :=
      exists_element_of_readEnclosed readsMembers isMember
    obtain ⟨inner, isInner, rfl⟩ := Option.map_eq_some_iff.mp isReader
    obtain ⟨front, back, value⟩ := exists_item_of_readMember here
    exact ⟨inner, front, back, isInner, value⟩
  · exact .inl (legible_of_readPlain reads)

/-- What has nothing nested in it suits every depth. -/
theorem Legible.of_flat (flat : Legible 0 json) (depth : Nat) : Legible depth json := by
  cases depth with
  | zero => exact flat
  | succ depth =>
    cases json with
    | list items =>
      intro item member
      rw [show items = [] from flat] at member
      cases member
    | object members =>
      intro member isMember
      rw [show members = [] from flat] at isMember
      cases isMember
    | _ => exact flat

theorem legible_of_readValue (reads : readValue depth text = some (json, rest)) :
    Legible depth json := by
  induction depth generalizing text json rest with
  | zero =>
    rcases cases_of_readWith reads with flat | ⟨items, rfl, all⟩ | ⟨members, rfl, all⟩
    · exact flat
    · apply List.eq_nil_iff_forall_not_mem.mpr
      intro item member
      obtain ⟨_, _, _, none, _⟩ := all item member
      cases none
    · apply List.eq_nil_iff_forall_not_mem.mpr
      intro member isMember
      obtain ⟨_, _, _, none, _⟩ := all member isMember
      cases none
  | succ depth ih =>
    rcases cases_of_readWith reads with flat | ⟨items, rfl, all⟩ | ⟨members, rfl, all⟩
    · exact flat.of_flat _
    · intro item member
      obtain ⟨_, _, _, same, here⟩ := all item member
      cases same
      exact ih here
    · intro member isMember
      obtain ⟨_, _, _, same, here⟩ := all member isMember
      cases same
      exact ih here

/-- A text that can be read holds a value that can be written and read again. -/
theorem legible_of_read? (reads : read? depth text = some json) : Legible depth json := by
  obtain ⟨⟨value, rest⟩, here, checked⟩ := Option.bind_eq_some_iff.mp reads
  simp only at checked
  split at checked
  · cases checked
    exact legible_of_readValue here
  · cases checked

end Json

end NextEdit
