import NextEdit.Proofs.Text.Scan
import NextEdit.Proofs.Text.Tag

/-! What erasing a marker leaves. A single scan takes out every occurrence it meets, and what stood on
both sides of one then stands together; so a marker is left exactly where whole markers cut another
one up. -/
namespace NextEdit.Text

/-- The marker stands in the text in parts, with a whole copy of it between neighbours. -/
def CutUp (marker text : Text) : Prop :=
  ∃ parts : List Text, parts.flatten = marker ∧ marker ∉ parts ∧ join marker parts <:+: text

section Pieces

variable {marker : Text} {pieces rest : List Text}

theorem join_cons (piece : Text) (more : rest ≠ []) :
    join marker (piece :: rest) = piece ++ (marker ++ join marker rest) := by
  rw [join.eq_3 marker piece rest more, List.append_assoc]

theorem piece_isPrefix_join (marker piece : Text) (rest : List Text) :
    piece <+: join marker (piece :: rest) := by
  cases rest with
  | nil => exact List.prefix_rfl
  | cons next rest => exact join_cons piece (List.cons_ne_nil _ _) ▸ List.prefix_append _ _

/-- Every text is cut by its markers into pieces that hold none. -/
theorem exists_pieces (full : marker ≠ []) (text : Text) :
    ∃ pieces, pieces ≠ [] ∧ join marker pieces = text ∧ ∀ piece ∈ pieces, ¬ marker <:+: piece := by
  induction text using scanInduction full with
  | nil =>
    refine ⟨[[]], List.cons_ne_nil _ _, rfl, ?_⟩
    exact List.forall_mem_singleton.mpr (mt List.infix_nil.mp full)
  | hit rest ih =>
    obtain ⟨pieces, some, rfl, free⟩ := ih
    refine ⟨[] :: pieces, List.cons_ne_nil _ _, join_cons [] some, ?_⟩
    exact List.forall_mem_cons.mpr ⟨mt List.infix_nil.mp full, free⟩
  | miss char rest absent ih =>
    obtain ⟨pieces, some, rfl, free⟩ := ih
    obtain ⟨piece, others, rfl⟩ := List.exists_cons_of_ne_nil some
    obtain ⟨pieceFree, othersFree⟩ := List.forall_mem_cons.mp free
    have longer : ¬ marker <:+: char :: piece := by
      rw [List.infix_cons_iff, not_or]
      refine ⟨fun stands => absent (stands.trans ?_), pieceFree⟩
      exact (List.prefix_cons_inj char).mpr (piece_isPrefix_join marker piece others)
    refine ⟨(char :: piece) :: others, List.cons_ne_nil _ _, ?_,
      List.forall_mem_cons.mpr ⟨longer, othersFree⟩⟩
    cases others <;> rfl

/-- A beginning of the pieces put together is put together from beginnings of the pieces. -/
theorem exists_parts_of_prefix (marker : Text) (nonempty : back ≠ [])
    (stands : back <+: pieces.flatten) :
    ∃ parts, parts ≠ [] ∧ parts.flatten = back ∧ join marker parts <+: join marker pieces := by
  induction pieces generalizing back with
  | nil => exact absurd (List.prefix_nil.mp stands) nonempty
  | cons piece rest ih =>
    rw [List.flatten_cons] at stands
    by_cases within : back <+: piece
    · refine ⟨[back], List.cons_ne_nil _ _, List.flatten_singleton, ?_⟩
      exact within.trans (piece_isPrefix_join marker piece rest)
    · obtain ⟨more, rfl⟩ := (List.prefix_or_prefix_of_prefix stands
        (List.prefix_append piece rest.flatten)).resolve_left within
      have beyond : more ≠ [] := by
        rintro rfl
        exact within ⟨[], by simp⟩
      have inRest := (List.prefix_append_right_inj piece).mp stands
      have restMore : rest ≠ [] := by
        rintro rfl
        exact beyond (List.prefix_nil.mp inRest)
      obtain ⟨parts, some, rfl, joined⟩ := ih beyond inRest
      refine ⟨piece :: parts, List.cons_ne_nil _ _, List.flatten_cons, ?_⟩
      rw [join_cons piece some, join_cons piece restMore]
      exact (List.prefix_append_right_inj piece).mpr ((List.prefix_append_right_inj marker).mpr joined)

/-- A marker that no piece holds spans several of them. -/
theorem exists_parts_of_infix (full : marker ≠ []) (free : ∀ piece ∈ pieces, ¬ marker <:+: piece)
    (found : marker <:+: pieces.flatten) : CutUp marker (join marker pieces) := by
  induction pieces with
  | nil => exact absurd (List.infix_nil.mp found) full
  | cons piece rest ih =>
    obtain ⟨pieceFree, restFree⟩ := List.forall_mem_cons.mp free
    rw [List.flatten_cons, List.infix_append_iff_ne_nil] at found
    have restMore (nonempty : rest.flatten ≠ []) : rest ≠ [] := by
      rintro rfl
      exact nonempty List.flatten_nil
    rcases found with inPiece | inRest | ⟨front, back, frontFull, backFull, parts, ends, starts⟩
    · exact absurd inPiece pieceFree
    · have more := restMore fun empty => full (List.infix_nil.mp (empty ▸ inRest))
      obtain ⟨parts, whole, cut, joined⟩ := ih restFree inRest
      refine ⟨parts, whole, cut, joined.trans ?_⟩
      rw [join_cons piece more, ← List.append_assoc]
      exact (List.suffix_append _ _).isInfix
    · have more := restMore fun empty => backFull (List.prefix_nil.mp (empty ▸ starts))
      obtain ⟨tails, some, rfl, joined⟩ := exists_parts_of_prefix marker backFull starts
      refine ⟨front :: tails, parts.symm, ?_, ?_⟩
      · -- A part of the marker is shorter than the marker, as neither end of it is empty.
        intro member
        have frontLong := List.length_pos_iff.mpr frontFull
        have backLong := List.length_pos_iff.mpr backFull
        have size := congrArg List.length parts
        rw [List.length_append] at size
        rcases List.mem_cons.mp member with same | later
        · have := congrArg List.length same
          omega
        · have := (List.infix_of_mem_flatten later).length_le
          omega
      · obtain ⟨lead, rfl⟩ := ends
        rw [join_cons front some, join_cons (lead ++ front) more, List.append_assoc]
        obtain ⟨tail, same⟩ := joined
        exact ⟨lead, tail, by simp only [← same, List.append_assoc]⟩

end Pieces

variable {marker text inner others : Text} {parts : List Text}

/-- A text that is a tag, cut up, starts as a tag does. -/
theorem exists_head_of_join (whole : parts.flatten = '<' :: inner) (opens : marker = '<' :: others) :
    ∃ behind, join marker parts = '<' :: behind := by
  cases parts with
  | nil => cases whole
  | cons part rest =>
    cases part with
    | cons char part =>
      obtain ⟨rfl, _⟩ := List.cons.inj whole
      obtain ⟨behind, same⟩ := piece_isPrefix_join marker ('<' :: part) rest
      exact ⟨part ++ behind, same.symm⟩
    | nil =>
      have more : rest ≠ [] := by
        rintro rfl
        cases whole
      exact ⟨others ++ join marker rest, by rw [join_cons [] more, opens]; rfl⟩

/-- Erasing leaves a tag exactly where one stands cut up by whole ones. -/
theorem IsTag.infix_eraseAll_iff (tag : IsTag marker) :
    marker <:+: eraseAll marker text ↔ CutUp marker text := by
  have full := tag.inline.1
  have single := tag.endsBefore tag
  constructor
  · intro found
    obtain ⟨pieces, _, rfl, free⟩ := exists_pieces full text
    rw [eraseAll_join full single free] at found
    exact exists_parts_of_infix full free found
  · rintro ⟨parts, whole, cut, lead, tail, rfl⟩
    have free : ∀ part ∈ parts, ¬ marker <:+: part := by
      intro part member found
      have inside : part <:+: marker := whole ▸ List.infix_of_mem_flatten member
      exact cut (found.eq_of_length_le inside.length_le ▸ member)
    -- The cut up marker begins and ends as a marker does, so no other runs into it or out of it.
    obtain ⟨inner, opens, _⟩ := tag.exists_core
    obtain ⟨behind, starts⟩ := exists_head_of_join (whole.trans opens) opens
    have before : ¬ Straddles marker lead (join marker parts ++ tail) := by
      rw [starts]
      exact (tag.endsBefore_bracket behind).not_straddles lead tail
    have after : ¬ Straddles marker parts.flatten tail := by
      rw [whole]
      exact (tag.startsBehind tag).not_straddles [] tail
    rw [List.append_assoc, eraseAll_append full before, eraseAll_join_append full single free after,
      whole]
    exact ⟨_, _, List.append_assoc _ _ _⟩

end NextEdit.Text
