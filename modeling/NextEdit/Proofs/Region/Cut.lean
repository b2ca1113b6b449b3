import NextEdit.Proofs.Text.Slices
import NextEdit.Region.Basic

/-! A region as the cut of its context. Its four texts give the context back, and they are the only
cut of that context at the editable span and the cursor; a request's region lies in its excerpt. -/
namespace NextEdit

namespace Region

/-- Any four texts are the cut of what they make up. -/
theorem cut_context (region : Region) :
    cut region.context region.editable region.cursor = .ok region := by
  obtain ⟨before, untilCursor, fromCursor, after⟩ := region
  have atStart : before ++ (untilCursor ++ fromCursor) ++ after =
      before ++ (untilCursor ++ (fromCursor ++ after)) := by
    simp only [List.append_assoc]
  have atCursor : before ++ (untilCursor ++ fromCursor) ++ after =
      (before ++ untilCursor) ++ (fromCursor ++ after) := by
    simp only [List.append_assoc]
  have startFits := Text.isBoundary_byteCount before (untilCursor ++ (fromCursor ++ after))
  have cursorFits := Text.isBoundary_byteCount (before ++ untilCursor) (fromCursor ++ after)
  have stopFits := Text.isBoundary_byteCount (before ++ (untilCursor ++ fromCursor)) after
  have front := Text.takeBytes_append before (untilCursor ++ (fromCursor ++ after))
  have left := Text.between_append before untilCursor (fromCursor ++ after)
  have right := Text.between_append (before ++ untilCursor) fromCursor after
  have back := Text.dropBytes_append (before ++ (untilCursor ++ fromCursor)) after
  rw [← atStart] at startFits front left
  rw [← atCursor] at cursorFits right
  simp only [Text.byteCount_append, Nat.add_assoc] at cursorFits stopFits left right back
  simp only [cut, context, editableText, editable, cursor, Int.toNat_natCast, Text.byteCount_append]
  rw [Text.checkSpan_eq_ok_iff.mpr ⟨startFits, stopFits⟩,
    Text.checkSpan_eq_ok_iff.mpr ⟨cursorFits, cursorFits⟩, if_neg (by omega), front, left, right, back]
  rfl

/-- A cut is the region whose context, editable span and cursor are those that were cut. -/
theorem cut_eq_ok_iff {whole : Text} {span : Span} {offset : Int} {region : Region} :
    cut whole span offset = .ok region ↔
      region.context = whole ∧ region.editable = span ∧ (region.cursor : Int) = offset := by
  constructor
  · intro cuts
    obtain ⟨_, spanFits, rest⟩ := exists_of_bind_eq_ok cuts
    obtain ⟨inside, rest⟩ := not_of_guard rest
    obtain ⟨_, cursorFits, _⟩ := exists_of_bind_eq_ok rest
    obtain ⟨startFits, stopFits⟩ := Text.checkSpan_eq_ok_iff.mp spanFits
    obtain ⟨cursorFits, _⟩ := Text.checkSpan_eq_ok_iff.mp cursorFits
    obtain ⟨start, stop, ordered⟩ := span
    obtain ⟨cursor, rfl⟩ := Int.eq_ofNat_of_zero_le (a := offset) (by omega)
    simp only [Span.point, Int.toNat_natCast] at inside startFits stopFits cursorFits
    obtain ⟨front, left, right, back, rfl, rfl, rfl, rfl⟩ :=
      Text.exists_four_parts startFits cursorFits stopFits (by omega) (by omega)
    have parts := cut_context
      { before := front, untilCursor := left, fromCursor := right, after := back }
    simp only [context, editableText, editable, List.append_assoc, Text.byteCount_append] at parts
    have same := Except.ok.inj (cuts.symm.trans parts)
    subst same
    simp [context, editableText, editable, Region.cursor]
  · rintro ⟨rfl, rfl, rfl⟩
    exact cut_context region

end Region

namespace Request

/-- The context that a request shows is a part of its excerpt. -/
theorem context_infix_of_region {request : Request} {region : Region}
    (resolves : request.region format = .ok region) : region.context <:+: request.excerpt := by
  unfold Request.region at resolves
  split at resolves
  · obtain ⟨text, fits, rest⟩ := exists_of_bind_eq_ok resolves
    obtain ⟨_, rest⟩ := not_of_guard rest
    obtain ⟨_, rest⟩ := not_of_guard rest
    rw [(Region.cut_eq_ok_iff.mp rest).1, Text.eq_between_of_slice fits]
    exact Text.infix_between _ _ _
  · exact (Region.cut_eq_ok_iff.mp resolves).1 ▸ List.infix_rfl

end Request

end NextEdit
