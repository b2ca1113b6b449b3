import NextEdit.Text.Search
import Mathlib.Data.List.Infix

/-! Where a marker can occur. An occurrence in two texts put together lies in one of them or straddles
the border; where none can straddle it, counting and erasing work on both sides apart. A marker that
cannot run into another copy of itself is found by its first occurrence. -/
namespace NextEdit.Text

/-- The marker begins at the end of one text and goes on at the start of the next. -/
def Straddles (marker left right : Text) : Prop :=
  ∃ front back, front ≠ [] ∧ back ≠ [] ∧ marker = front ++ back ∧ front <:+ left ∧ back <+: right

/-- An occurrence of the marker that starts in front of `fence` ends in front of it. -/
def EndsBefore (marker fence : Text) : Prop :=
  ∀ cut < marker.length, 0 < cut → ¬ marker.drop cut <+: fence ∧ ¬ fence <+: marker.drop cut

/-- An occurrence of the marker that ends behind `fence` starts behind it. -/
def StartsBehind (marker fence : Text) : Prop :=
  ∀ cut < marker.length, 0 < cut → ¬ marker.take cut <:+ fence ∧ ¬ fence <:+ marker.take cut

instance (marker fence : Text) : Decidable (EndsBefore marker fence) :=
  inferInstanceAs (Decidable (∀ cut < marker.length, 0 < cut → _ ∧ _))

instance (marker fence : Text) : Decidable (StartsBehind marker fence) :=
  inferInstanceAs (Decidable (∀ cut < marker.length, 0 < cut → _ ∧ _))

theorem EndsBefore.not_straddles (ends : EndsBefore marker fence) (left rest : Text) :
    ¬ Straddles marker left (fence ++ rest) := by
  rintro ⟨front, back, frontFull, backFull, rfl, _, backStands⟩
  have inside : front.length < (front ++ back).length := by
    have := List.length_pos_iff.mpr backFull
    rw [List.length_append]
    omega
  have refused := ends front.length inside (List.length_pos_iff.mpr frontFull)
  rw [List.drop_left] at refused
  rcases List.prefix_or_prefix_of_prefix backStands (List.prefix_append fence rest) with
    short | long
  · exact refused.1 short
  · exact refused.2 long

theorem StartsBehind.not_straddles (starts : StartsBehind marker fence) (lead right : Text) :
    ¬ Straddles marker (lead ++ fence) right := by
  rintro ⟨front, back, frontFull, backFull, rfl, frontStands, _⟩
  have inside : front.length < (front ++ back).length := by
    have := List.length_pos_iff.mpr backFull
    rw [List.length_append]
    omega
  have refused := starts front.length inside (List.length_pos_iff.mpr frontFull)
  rw [List.take_left] at refused
  rcases List.suffix_or_suffix_of_suffix frontStands (List.suffix_append lead fence) with
    short | long
  · exact refused.1 short
  · exact refused.2 long

theorem infix_append_iff_of_not_straddles (apart : ¬ Straddles marker left right) :
    marker <:+: left ++ right ↔ marker <:+: left ∨ marker <:+: right := by
  rw [List.infix_append_iff_ne_nil]
  exact ⟨fun found => found.imp_right fun later => later.resolve_right apart,
    fun found => found.imp_right .inl⟩

theorem isPrefix_of_not_straddles (apart : ¬ Straddles marker left right) (nonempty : left ≠ [])
    (found : marker <+: left ++ right) : marker <+: left := by
  rcases List.prefix_or_prefix_of_prefix found (List.prefix_append left right) with
    short | ⟨back, rfl⟩
  · exact short
  · by_cases whole : back = []
    · rw [whole, List.append_nil]
    · have backStands := (List.prefix_append_right_inj left).mp found
      exact absurd ⟨left, back, nonempty, whole, rfl, List.suffix_rfl, backStands⟩ apart

theorem Straddles.of_suffix (straddles : Straddles marker left right) (shorter : left <:+ longer) :
    Straddles marker longer right := by
  obtain ⟨front, back, frontFull, backFull, parts, frontStands, backStands⟩ := straddles
  exact ⟨front, back, frontFull, backFull, parts, frontStands.trans shorter, backStands⟩

theorem not_straddles_nil_left (marker right : Text) : ¬ Straddles marker [] right := by
  rintro ⟨front, _, frontFull, _, _, frontStands, _⟩
  exact frontFull (List.suffix_nil.mp frontStands)

theorem not_straddles_nil_right (marker left : Text) : ¬ Straddles marker left [] := by
  rintro ⟨_, back, _, backFull, _, _, backStands⟩
  exact backFull (List.prefix_nil.mp backStands)

/-- A marker that stands within one line. -/
def Inline (marker : Text) : Prop :=
  marker ≠ [] ∧ '\n' ∉ marker

instance (marker : Text) : Decidable (Inline marker) :=
  inferInstanceAs (Decidable (_ ∧ _))

namespace Inline

theorem not_straddles_before (inline : Inline marker) (left rest : Text) :
    ¬ Straddles marker left ('\n' :: rest) := by
  rintro ⟨front, back, _, backFull, rfl, _, backStands⟩
  obtain ⟨char, more, rfl⟩ := List.exists_cons_of_ne_nil backFull
  obtain ⟨rfl, _⟩ := List.cons_prefix_cons.mp backStands
  exact inline.2 (List.mem_append_right _ List.mem_cons_self)

theorem not_straddles_behind (inline : Inline marker) (lead right : Text) :
    ¬ Straddles marker (lead ++ ['\n']) right := by
  rintro ⟨front, back, frontFull, _, rfl, frontStands, _⟩
  rcases List.suffix_concat_iff.mp frontStands with empty | ⟨more, rfl, _⟩
  · exact frontFull empty
  · exact inline.2 (by simp)

/-- A line break keeps what is in front of it apart from what follows. -/
theorem infix_iff (inline : Inline marker) (left right : Text) :
    marker <:+: left ++ '\n' :: right ↔ marker <:+: left ∨ marker <:+: right := by
  have absent : ¬ marker <:+: ['\n'] := by
    intro found
    obtain ⟨char, more, rfl⟩ := List.exists_cons_of_ne_nil inline.1
    cases List.mem_singleton.mp (found.subset List.mem_cons_self)
    exact inline.2 List.mem_cons_self
  have behind : marker <:+: '\n' :: right ↔ marker <:+: right :=
    (infix_append_iff_of_not_straddles (inline.not_straddles_behind [] right)).trans
      (or_iff_right absent)
  rw [infix_append_iff_of_not_straddles (inline.not_straddles_before left right), behind]

theorem free_line (inline : Inline marker) (free : ¬ marker <:+: text) :
    ¬ marker <:+: '\n' :: text := by
  intro found
  rcases (inline.infix_iff [] text).mp found with nothing | later
  · exact inline.1 (List.infix_nil.mp nothing)
  · exact free later

theorem free_closeLine (inline : Inline marker) (free : ¬ marker <:+: text) :
    ¬ marker <:+: closeLine text := by
  unfold closeLine
  split
  · exact free
  · intro found
    rcases (inline.infix_iff text []).mp found with earlier | nothing
    · exact free earlier
    · exact inline.1 (List.infix_nil.mp nothing)

end Inline

theorem after?_eq_some_iff : after? marker text = some rest ↔ text = marker ++ rest := by
  rw [after?, List.isPrefixOf?_eq_some_iff_append_eq, eq_comm]

theorem after?_eq_none (absent : ¬ marker <+: text) : after? marker text = none := by
  cases found : after? marker text with
  | none => rfl
  | some rest => exact absurd ⟨rest, (after?_eq_some_iff.mp found).symm⟩ absent

theorem splitFirst?_eq_none (free : ¬ marker <:+: text) : splitFirst? marker text = none := by
  induction text with
  | nil =>
    have full : marker ≠ [] := fun empty => free (empty ▸ List.infix_rfl)
    rw [splitFirst?, List.isEmpty_eq_false_iff.mpr full]
    rfl
  | cons char rest ih =>
    rw [List.infix_cons_iff, not_or] at free
    rw [splitFirst?, after?_eq_none free.1, ih free.2]
    rfl

/-- The first occurrence is the one that a text without the marker stands in front of. -/
theorem splitFirst?_append (single : EndsBefore marker marker) (free : ¬ marker <:+: before)
    (rest : Text) : splitFirst? marker (before ++ (marker ++ rest)) = some (before, rest) := by
  induction before with
  | nil =>
    have full : marker ≠ [] := fun empty => free (empty ▸ List.infix_rfl)
    obtain ⟨char, others, rfl⟩ := List.exists_cons_of_ne_nil full
    have found : after? (char :: others) (char :: (others ++ rest)) = some rest :=
      after?_eq_some_iff.mpr rfl
    rw [List.nil_append, List.cons_append, splitFirst?, found]
  | cons char before ih =>
    have absent : ¬ marker <+: char :: before ++ (marker ++ rest) := fun found =>
      free (isPrefix_of_not_straddles (single.not_straddles _ _) (List.cons_ne_nil _ _) found).isInfix
    rw [List.infix_cons_iff, not_or] at free
    rw [List.cons_append] at absent ⊢
    rw [splitFirst?, after?_eq_none absent, ih free.2]
    rfl

theorem splitFirst?_eq_none_iff : splitFirst? marker text = none ↔ ¬ marker <:+: text := by
  refine ⟨?_, splitFirst?_eq_none⟩
  intro missed found
  induction text with
  | nil =>
    rw [List.infix_nil.mp found] at missed
    cases missed
  | cons char rest ih =>
    rw [splitFirst?] at missed
    split at missed
    · cases missed
    · rename_i absent
      have later := Option.map_eq_none_iff.mp missed
      rcases List.infix_cons_iff.mp found with ⟨tail, here⟩ | inRest
      · rw [after?_eq_some_iff.mpr here.symm] at absent
        cases absent
      · exact ih later inRest

theorem exists_of_splitFirst? (full : marker ≠ [])
    (found : splitFirst? marker text = some (before, rest)) :
    text = before ++ (marker ++ rest) ∧ ¬ marker <:+: before := by
  have free : ¬ marker <:+: [] := mt List.infix_nil.mp full
  induction text generalizing before with
  | nil =>
    rw [splitFirst?, List.isEmpty_eq_false_iff.mpr full] at found
    cases found
  | cons char tail ih =>
    rw [splitFirst?] at found
    split at found
    · rename_i here
      cases found
      have parts := after?_eq_some_iff.mp here
      exact ⟨parts, free⟩
    · rename_i absent
      obtain ⟨⟨front, back⟩, later, same⟩ := Option.map_eq_some_iff.mp found
      cases same
      obtain ⟨rfl, frontFree⟩ := ih later
      refine ⟨rfl, ?_⟩
      rw [List.infix_cons_iff, not_or]
      refine ⟨fun stands => ?_, frontFree⟩
      obtain ⟨more, parts⟩ := stands.trans (List.prefix_append (char :: front) (marker ++ rest))
      rw [List.cons_append] at parts
      rw [after?_eq_some_iff.mpr parts.symm] at absent
      cases absent

/-- A text that holds a marker has a first one. -/
theorem exists_first_of_infix {marker text : Text} (full : marker ≠ []) (found : marker <:+: text) :
    ∃ before rest, text = before ++ (marker ++ rest) ∧ ¬ marker <:+: before := by
  cases cut : splitFirst? marker text with
  | none => exact absurd found (splitFirst?_eq_none_iff.mp cut)
  | some parts => exact ⟨parts.1, parts.2, exists_of_splitFirst? full cut⟩

theorem contains_iff : contains marker text = true ↔ marker <:+: text := by
  rw [contains, Option.isSome_iff_ne_none, ne_eq, splitFirst?_eq_none_iff, not_not]

theorem append_marker_inj (single : EndsBefore marker marker)
    (firstFree : ¬ marker <:+: first) (secondFree : ¬ marker <:+: second)
    (same : first ++ (marker ++ rest) = second ++ (marker ++ others)) :
    first = second ∧ rest = others := by
  have found := splitFirst?_append single firstFree rest
  rw [same, splitFirst?_append single secondFree others] at found
  exact ⟨(congrArg Prod.fst (Option.some.inj found)).symm,
    (congrArg Prod.snd (Option.some.inj found)).symm⟩

end NextEdit.Text
