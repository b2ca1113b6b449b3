import NextEdit.Proofs.Text.Measure
import NextEdit.Span

/-! Checked spans. A span fits a text where both its ends are boundaries, and boundaries in order cut
the text into whole parts. Checks that follow one another succeed where each of them does. -/
namespace NextEdit

theorem exists_of_bind_eq_ok {first : Except ε α} {next : α → Except ε β}
    (succeeds : first >>= next = .ok result) :
    ∃ value, first = .ok value ∧ next value = .ok result := by
  cases first with
  | error error => cases succeeds
  | ok value => exact ⟨value, rfl, succeeds⟩

theorem not_of_guard {failing : Prop} [Decidable failing] {next : Except ε β}
    (succeeds : (if failing then .error error else next) = .ok result) :
    ¬ failing ∧ next = .ok result := by
  split at succeeds
  · cases succeeds
  · rename_i passes
    exact ⟨passes, succeeds⟩

/-- Offsets pass the check where they are in order, inside the text and on boundaries. -/
theorem checkBounds_eq_ok_iff {length : Nat} {boundary : Nat → Bool} {subject : Text}
    {start stop : Int} : checkBounds length boundary subject start stop = .ok () ↔
      (0 ≤ start ∧ start ≤ stop) ∧ stop ≤ length ∧
        boundary start.toNat = true ∧ boundary stop.toNat = true := by
  constructor
  · intro fits
    obtain ⟨ordered, fits⟩ := not_of_guard fits
    obtain ⟨inside, fits⟩ := not_of_guard fits
    split at fits
    · rename_i both
      exact ⟨by omega, by omega, Bool.and_eq_true_iff.mp both⟩
    · cases fits
  · rintro ⟨ordered, inside, first, second⟩
    simp only [checkBounds, first, second, Bool.and_self, if_true]
    rw [if_neg (by omega), if_neg (by omega)]

namespace Text

theorem dropBytes_append (left right : Text) : dropBytes (byteCount left) (left ++ right) = right := by
  have whole := takeBytes_append_dropBytes (byteCount left) (left ++ right)
  rw [takeBytes_append] at whole
  exact List.append_cancel_left whole

theorem between_append (front middle back : Text) :
    between (byteCount front) (byteCount front + byteCount middle) (front ++ (middle ++ back)) =
      middle := by
  rw [between, takeBytes_append, dropBytes_append, Nat.add_sub_cancel_left, takeBytes_append]

theorem infix_between (start stop : Nat) (text : Text) : between start stop text <:+: text := by
  refine ⟨takeBytes start text,
    dropBytes (stop - byteCount (takeBytes start text)) (dropBytes start text), ?_⟩
  rw [between, List.append_assoc, takeBytes_append_dropBytes, takeBytes_append_dropBytes]

/-- Of two beginnings of a text the one with fewer bytes is a beginning of the other. -/
theorem isPrefix_of_byteCount_le {first second : Text} (firstStands : first <+: text)
    (secondStands : second <+: text) (ordered : byteCount first ≤ byteCount second) :
    first <+: second := by
  rcases List.prefix_or_prefix_of_prefix firstStands secondStands with short | ⟨more, rfl⟩
  · exact short
  · rw [byteCount_append] at ordered
    by_cases empty : more = []
    · simp [empty]
    · have := byteCount_pos empty
      omega

/-- Two boundaries in order cut a text in three. -/
theorem exists_parts (first : isBoundary text start = true) (second : isBoundary text stop = true)
    (ordered : start ≤ stop) : ∃ front middle back, text = front ++ (middle ++ back) ∧
      byteCount front = start ∧ byteCount front + byteCount middle = stop := by
  obtain ⟨front, rest, parts, startPlace⟩ := isBoundary_iff.mp first
  obtain ⟨longer, back, others, stopPlace⟩ := isBoundary_iff.mp second
  have frontStands : front <+: text := ⟨rest, parts.symm⟩
  obtain ⟨middle, rfl⟩ := isPrefix_of_byteCount_le frontStands ⟨back, others.symm⟩ (by omega)
  refine ⟨front, middle, back, ?_, startPlace, ?_⟩
  · rw [others, List.append_assoc]
  · rw [← byteCount_append, stopPlace]

/-- Three boundaries in order cut a text in four. -/
theorem exists_four_parts (first : isBoundary text start = true)
    (second : isBoundary text middle = true) (third : isBoundary text stop = true)
    (begins : start ≤ middle) (ends : middle ≤ stop) :
    ∃ front left right back, text = front ++ (left ++ (right ++ back)) ∧ byteCount front = start ∧
      byteCount front + byteCount left = middle ∧
      byteCount front + (byteCount left + byteCount right) = stop := by
  obtain ⟨longer, right, back, parts, middlePlace, stopPlace⟩ := exists_parts second third ends
  obtain ⟨front, rest, others, startPlace⟩ := isBoundary_iff.mp first
  have frontStands : front <+: text := ⟨rest, others.symm⟩
  obtain ⟨left, rfl⟩ :=
    isPrefix_of_byteCount_le frontStands ⟨right ++ back, parts.symm⟩ (by omega)
  rw [byteCount_append] at middlePlace stopPlace
  refine ⟨front, left, right, back, ?_, startPlace, middlePlace, ?_⟩
  · rw [parts, List.append_assoc]
  · rw [← Nat.add_assoc, stopPlace]

theorem isBoundary_byteCount (left right : Text) :
    isBoundary (left ++ right) (byteCount left) = true :=
  isBoundary_iff.mpr ⟨left, right, rfl, rfl⟩

/-- A span fits a text where both its ends are boundaries. -/
theorem checkSpan_eq_ok_iff : checkSpan text subject span = .ok () ↔
    isBoundary text span.start = true ∧ isBoundary text span.stop = true := by
  rw [checkSpan, checkBounds_eq_ok_iff, Int.toNat_natCast, Int.toNat_natCast]
  constructor
  · rintro ⟨_, _, both⟩
    exact both
  · rintro ⟨first, second⟩
    have ordered := span.ordered
    have inside := le_byteCount_of_isBoundary second
    exact ⟨by omega, by omega, first, second⟩

theorem eq_between_of_slice (fits : slice text subject span = .ok part) :
    part = between span.start span.stop text := by
  obtain ⟨_, _, rest⟩ := exists_of_bind_eq_ok fits
  exact (Except.ok.inj rest).symm

theorem exists_slice_iff : (∃ part, slice text subject span = .ok part) ↔
    isBoundary text span.start = true ∧ isBoundary text span.stop = true := by
  rw [← checkSpan_eq_ok_iff]
  constructor
  · rintro ⟨part, fits⟩
    obtain ⟨_, checked, _⟩ := exists_of_bind_eq_ok fits
    exact checked
  · intro checked
    exact ⟨between span.start span.stop text, by rw [slice, checked]; rfl⟩

end Text

end NextEdit
