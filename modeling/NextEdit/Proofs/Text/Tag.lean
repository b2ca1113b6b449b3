import NextEdit.Proofs.Text.Occurrence

/-! Markers whose ends stand nowhere else in them. The first character of a fence keeps markers from
running into it, and its last one keeps them from coming out of it; a tag has such a pair of
brackets. -/
namespace NextEdit.Text

theorem EndsBefore.of_head (absent : first ∉ marker.tail) (rest : Text) :
    EndsBefore marker (first :: rest) := by
  intro cut inside positive
  have later : first ∉ marker.drop cut := by
    intro found
    obtain ⟨before, rfl⟩ := Nat.exists_eq_add_of_lt positive
    rw [Nat.zero_add, ← List.drop_tail] at found
    exact absent (List.mem_of_mem_drop found)
  refine ⟨?_, fun found => later (found.subset List.mem_cons_self)⟩
  intro found
  obtain ⟨char, more, parts⟩ := List.exists_cons_of_length_pos
    (show 0 < (marker.drop cut).length by rw [List.length_drop]; omega)
  rw [parts] at found later
  obtain ⟨rfl, _⟩ := List.cons_prefix_cons.mp found
  exact later List.mem_cons_self

theorem StartsBehind.of_last (absent : last ∉ marker.dropLast) (lead : Text) :
    StartsBehind marker (lead ++ [last]) := by
  intro cut inside positive
  have earlier : last ∉ marker.take cut := by
    intro found
    have shorter : marker.take cut <+: marker.dropLast := by
      rw [List.dropLast_eq_take]
      exact List.take_prefix_take_left (by omega)
    exact absent (shorter.subset found)
  refine ⟨?_, fun found => earlier (found.subset List.mem_concat_self)⟩
  intro found
  rcases List.suffix_concat_iff.mp found with empty | ⟨more, parts, _⟩
  · have size := congrArg List.length empty
    rw [List.length_take, List.length_nil] at size
    omega
  · exact earlier (parts ▸ List.mem_concat_self)

/-- What stands between the first character of a marker and the last. -/
def core (marker : Text) : Text :=
  marker.tail.dropLast

/-- A marker in one line, between angle brackets that stand nowhere else in it. -/
def IsTag (marker : Text) : Prop :=
  marker = '<' :: (core marker ++ ['>']) ∧
    '<' ∉ core marker ∧ '>' ∉ core marker ∧ '\n' ∉ core marker

instance (marker : Text) : Decidable (IsTag marker) :=
  inferInstanceAs (Decidable (_ ∧ _))

namespace IsTag

theorem exists_core (tag : IsTag marker) :
    ∃ inner, marker = '<' :: (inner ++ ['>']) ∧ '<' ∉ inner ∧ '>' ∉ inner ∧ '\n' ∉ inner :=
  ⟨core marker, tag⟩

theorem inline (tag : IsTag marker) : Inline marker := by
  obtain ⟨inner, rfl, _, _, line⟩ := tag.exists_core
  exact ⟨List.cons_ne_nil _ _, by simp [line]⟩

theorem bracket_mem (tag : IsTag marker) : '<' ∈ marker := by
  obtain ⟨inner, rfl, _⟩ := tag.exists_core
  exact List.mem_cons_self

theorem endsBefore_bracket (tag : IsTag marker) (rest : Text) : EndsBefore marker ('<' :: rest) := by
  obtain ⟨inner, rfl, opens, _⟩ := tag.exists_core
  exact .of_head (by simp [opens]) rest

theorem endsBefore (tag : IsTag marker) (other : IsTag fence) : EndsBefore marker fence := by
  obtain ⟨inner, rfl, _⟩ := other.exists_core
  exact tag.endsBefore_bracket _

theorem startsBehind (tag : IsTag marker) (other : IsTag fence) : StartsBehind marker fence := by
  obtain ⟨word, rfl, _⟩ := other.exists_core
  obtain ⟨inner, rfl, _, closes, _⟩ := tag.exists_core
  have absent : '>' ∉ ('<' :: inner ++ ['>']).dropLast := by
    rw [List.dropLast_concat]
    simp [closes]
  exact StartsBehind.of_last absent ('<' :: word)

theorem startsBehind_newline (tag : IsTag marker) (lead : Text) :
    StartsBehind marker (lead ++ ['\n']) :=
  .of_last (fun found => tag.inline.2 (List.dropLast_subset _ found)) lead

/-- A tag holds no tag but itself. -/
theorem eq_of_part (tag : IsTag marker) (other : IsTag whole) (found : marker <:+: whole) :
    marker = whole := by
  obtain ⟨front, back, parts⟩ := found
  obtain ⟨inner, rfl, _⟩ := tag.exists_core
  obtain ⟨word, rfl, opens, closes, _⟩ := other.exists_core
  cases front with
  | cons char front =>
    have behind := (List.cons.inj parts).2
    have inside : '<' ∈ word ++ ['>'] := by
      rw [← behind]
      simp
    simp [opens] at inside
  | nil =>
    have behind : word ++ '>' :: [] = inner ++ '>' :: back := by
      simpa using (List.cons.inj parts).2.symm
    obtain ⟨rfl, _⟩ :=
      (List.append_cons_inj_of_notMem closes (List.not_mem_nil)).mp behind
    rfl

end IsTag

end NextEdit.Text
