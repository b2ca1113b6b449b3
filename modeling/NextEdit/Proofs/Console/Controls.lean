import NextEdit.Console
import NextEdit.Proofs.Json.Ascii
import NextEdit.Proofs.Text.Scan

/-! Terminal control sequences in what is written. A text is written as it is exactly where none
occurs in it, and none does in JSON in ASCII. -/
namespace NextEdit.Console

/-- A terminal control sequence: escape, bracket, marks, one letter. -/
def IsControl (code : Text) : Prop :=
  ∃ marks final, code = '\x1b' :: '[' :: (marks ++ [final]) ∧
    (∀ char ∈ marks, isMark char = true) ∧ isLetter final = true

theorem lt_toNat_of_isLetter (letter : isLetter char = true) : 64 < char.toNat := by
  simp only [isLetter, Bool.or_eq_true, Bool.and_eq_true, decide_eq_true_eq] at letter
  rcases letter with lower | upper
  · have first : 97 ≤ char.toNat := lower.1
    omega
  · exact upper.1

theorem toNat_lt_of_isMark (mark : isMark char = true) : char.toNat < 64 := by
  simp only [isMark, Char.isDigit, Bool.or_eq_true, Bool.and_eq_true, decide_eq_true_eq,
    beq_iff_eq] at mark
  rcases mark with (digit | rfl) | rfl
  · have last : char.toNat ≤ 57 := digit.2
    omega
  · decide
  · decide

theorem isMark_of_isLetter (letter : isLetter char = true) : isMark char = false := by
  apply Bool.eq_false_iff.mpr
  intro mark
  have above := lt_toNat_of_isLetter letter
  have below := toNat_lt_of_isMark mark
  omega

theorem controlLength_of_isControl {code : Text} (control : IsControl code) (rest : Text) :
    controlLength (code ++ rest) = code.length := by
  obtain ⟨marks, final, rfl, allMarks, letter⟩ := control
  have stops : (marks ++ final :: rest).takeWhile isMark = marks := by
    rw [List.takeWhile_append_of_pos allMarks, List.takeWhile_cons_of_neg, List.append_nil]
    simp [isMark_of_isLetter letter]
  simp [controlLength, stops, letter]

theorem exists_control_of_controlLength (found : controlLength text ≠ 0) :
    ∃ code, IsControl code ∧ code <+: text := by
  unfold controlLength at found
  split at found
  · rename_i rest
    dsimp only at found
    split at found
    · rename_i final tail stands
      have letter : isLetter final = true := by
        by_contra other
        exact found (if_neg other)
      have marks : ∀ char ∈ rest.takeWhile isMark, isMark char = true :=
        List.all_eq_true.mp List.all_takeWhile
      have taken := List.prefix_iff_eq_take.mp (List.takeWhile_prefix isMark (l := rest))
      have parts := List.take_append_drop (rest.takeWhile isMark).length rest
      rw [stands, ← taken] at parts
      refine ⟨_, ⟨_, final, rfl, marks, letter⟩, tail, ?_⟩
      simp [parts]
    · exact absurd rfl found
  · exact absurd rfl found

/-- A text is written as it is exactly where no control sequence occurs in it. -/
theorem withoutControls_eq_self_iff :
    withoutControls text = text ↔ ∀ code, IsControl code → ¬ code <:+: text := by
  rw [withoutControls, Text.eraseEach_eq_self_iff rfl]
  constructor
  · intro clean code control occurs
    obtain ⟨front, back, rfl⟩ := occurs
    have stands : code ++ back <:+ front ++ code ++ back := by
      rw [List.append_assoc]
      exact List.suffix_append front _
    have clear := clean (code ++ back) stands
    rw [controlLength_of_isControl control] at clear
    obtain ⟨_, _, rfl, _⟩ := control
    cases clear
  · intro absent rest stands
    by_contra found
    obtain ⟨code, control, leads⟩ := exists_control_of_controlLength found
    exact absent code control (leads.isInfix.trans stands.isInfix)

theorem withoutControls_of_not_mem (free : '\x1b' ∉ text) : withoutControls text = text := by
  refine withoutControls_eq_self_iff.mpr fun code control occurs => free (occurs.mem ?_)
  obtain ⟨marks, final, rfl, _⟩ := control
  exact List.mem_cons_self

/-- JSON in ASCII is written as it is. -/
theorem json_machine (value : Json) : json .machine value = value.write .ascii ++ ['\n'] := by
  refine withoutControls_of_not_mem fun member => ?_
  rcases List.mem_append.mp member with inside | line
  · exact absurd (Json.allPrintable_write value _ inside) (by decide)
  · exact absurd line (by decide)

end NextEdit.Console
