import Mathlib.Order.Bounds.Basic
import NextEdit.Proofs.Text.Octets

/-! Byte offsets into the bytes of a text. An offset is a boundary where the text splits, every offset has
a last boundary at or below it, and a slice is the part of the text that its two offsets cut out. -/
namespace NextEdit

/-- The part stands between the two offsets: they count the bytes in front of it and up to its end. -/
def Text.StandsAt (text part : Text) (start stop : Int) : Prop :=
  ∃ front back, text = front ++ (part ++ back) ∧ (front.byteCount : Int) = start ∧
    ((front ++ part).byteCount : Int) = stop

/-- A check that refuses offsets names them, what they stand for and the length of the text. -/
theorem exists_fault_of_checkBounds {length : Nat} {boundary : Nat → Bool} {subject : Text}
    {start stop : Int} (refused : checkBounds length boundary subject start stop = .error error) :
    ∃ fault, error = { subject, start, stop, length, fault } := by
  unfold checkBounds at refused
  split at refused
  · exact ⟨.reversed, (Except.error.inj refused).symm⟩
  · split at refused
    · exact ⟨.pastEnd, (Except.error.inj refused).symm⟩
    · split at refused
      · cases refused
      · exact ⟨.splitsCharacter, (Except.error.inj refused).symm⟩

namespace Octets

section Boundaries

theorem isBoundary_encode_iff {text : Text} {offset : Int} :
    isBoundary (Text.encode text) offset = true ↔
      ∃ front back, text = front ++ back ∧ (front.byteCount : Int) = offset := by
  cases offset with
  | ofNat offset =>
    rw [show isBoundary (Text.encode text) (Int.ofNat offset) = text.isBoundary offset from
      isBoundary_encode text offset, Text.isBoundary_iff]
    simp only [Int.ofNat_eq_natCast, Int.natCast_inj]
  | negSucc offset =>
    have outside : isBoundary (Text.encode text) (Int.negSucc offset) = false := by
      rw [isBoundary, if_neg (by omega), if_pos (Int.negSucc_lt_zero offset)]
    rw [outside]
    constructor
    · nofun
    · rintro ⟨front, _, _, place⟩
      omega

theorem isBoundary_zero (data : Octets) : isBoundary data 0 = true :=
  if_pos (.inl rfl)

/-- The search downwards ends at the last boundary that is not above where it starts. -/
theorem isGreatest_boundaryBelow (data : Octets) (offset : Nat) :
    IsGreatest {place : Nat | isBoundary data place = true ∧ place ≤ offset}
      (boundaryBelow data offset) := by
  induction offset with
  | zero =>
    refine ⟨⟨isBoundary_zero data, Nat.le_refl 0⟩, ?_⟩
    rintro place ⟨_, below⟩
    exact below
  | succ offset ih =>
    rw [boundaryBelow]
    split
    · rename_i here
      refine ⟨⟨here, Nat.le_refl _⟩, ?_⟩
      rintro place ⟨_, below⟩
      exact below
    · rename_i inside
      obtain ⟨⟨found, below⟩, greatest⟩ := ih
      refine ⟨⟨found, Nat.le_succ_of_le below⟩, ?_⟩
      rintro place ⟨boundary, within⟩
      -- The start itself is no boundary, so every other one stands below it.
      have different : place ≠ offset + 1 := by
        rintro rfl
        exact inside boundary
      exact greatest ⟨boundary, by omega⟩

/-- Any offset is first moved into the data. -/
theorem isGreatest_lastBoundary (data : Octets) (offset : Int) :
    IsGreatest {place : Nat | isBoundary data place = true ∧
        (place : Int) ≤ max 0 (min offset data.length)}
      (lastBoundary data offset) := by
  have clamped (place : Nat) :
      (place : Int) ≤ max 0 (min offset data.length) ↔ place ≤ min offset.toNat data.length := by
    omega
  simp only [clamped]
  exact isGreatest_boundaryBelow data _

end Boundaries

section Slices

variable {text part subject : Text} {start stop : Int}

/-- The check of a slice lets through the offsets that cut a part out of the text. -/
theorem checkSlice_encode_eq_ok_iff :
    checkSlice (Text.encode text) subject start stop = .ok () ↔ ∃ part, text.StandsAt part start stop := by
  rw [checkSlice_encode, checkBounds_eq_ok_iff]
  constructor
  · rintro ⟨ordered, _, first, second⟩
    obtain ⟨front, part, back, parts, atStart, atStop⟩ :=
      Text.exists_parts first second (by omega)
    refine ⟨part, front, back, parts, by omega, ?_⟩
    rw [Text.byteCount_append]
    omega
  · rintro ⟨part, front, back, rfl, rfl, rfl⟩
    have first := Text.isBoundary_byteCount front (part ++ back)
    have second := Text.isBoundary_byteCount (front ++ part) back
    rw [List.append_assoc] at second
    simp only [Text.byteCount_append] at second ⊢
    exact ⟨by omega, by omega, first, second⟩

theorem slice_of_standsAt (stands : text.StandsAt part start stop) :
    slice (Text.encode text) subject start stop = .ok part := by
  obtain ⟨front, back, rfl, rfl, rfl⟩ := stands
  rw [Text.byteCount_append]
  exact slice_append front part back subject

theorem slice_encode_eq_ok_iff :
    slice (Text.encode text) subject start stop = .ok part ↔ text.StandsAt part start stop := by
  constructor
  · intro sliced
    cases checked : checkSlice (Text.encode text) subject start stop with
    | error error =>
      rw [slice, checked] at sliced
      cases sliced
    | ok done =>
      obtain ⟨other, stands⟩ := checkSlice_encode_eq_ok_iff.mp checked
      rw [slice_of_standsAt stands] at sliced
      cases sliced
      exact stands
  · exact slice_of_standsAt

/-- Bytes of a text between boundaries are UTF-8, so that only the offsets can be at fault. -/
theorem slice_encode_eq_range_iff :
    (∃ fault, slice (Text.encode text) subject start stop =
        .error (.range { subject, start, stop, length := text.byteCount, fault })) ↔
      ∀ part, ¬ text.StandsAt part start stop := by
  constructor
  · rintro ⟨fault, refused⟩ part stands
    rw [slice_of_standsAt stands] at refused
    cases refused
  · intro none
    cases checked : checkSlice (Text.encode text) subject start stop with
    | ok done =>
      obtain ⟨part, stands⟩ := checkSlice_encode_eq_ok_iff.mp checked
      exact absurd stands (none part)
    | error error =>
      rw [checkSlice_encode] at checked
      obtain ⟨fault, rfl⟩ := exists_fault_of_checkBounds checked
      refine ⟨fault, ?_⟩
      rw [slice, checkSlice_encode, checked]

end Slices

/-- Offsets into the bytes of a text are offsets into the text: boundaries are where it splits, the last
boundary below an offset is the greatest one, and a slice either gives the part that stands between its
offsets or, where there is none, refuses them. -/
theorem offsets_cut_text (text subject : Text) (start stop : Int) :
    (isBoundary (Text.encode text) start = true ↔
        ∃ front back, text = front ++ back ∧ (front.byteCount : Int) = start) ∧
      IsGreatest {place : Nat | isBoundary (Text.encode text) place = true ∧
          (place : Int) ≤ max 0 (min start (Text.encode text).length)}
        (lastBoundary (Text.encode text) start) ∧
      (∀ part, slice (Text.encode text) subject start stop = .ok part ↔
        text.StandsAt part start stop) ∧
      ((∃ fault, slice (Text.encode text) subject start stop =
          .error (.range { subject, start, stop, length := text.byteCount, fault })) ↔
        ∀ part, ¬ text.StandsAt part start stop) :=
  ⟨isBoundary_encode_iff, isGreatest_lastBoundary _ start, fun _ => slice_encode_eq_ok_iff,
    slice_encode_eq_range_iff⟩

end Octets

end NextEdit
