import NextEdit.Text.Line
import NextEdit.Text.Search

/-! Lines that are never empty, and texts whose last line is closed. -/
namespace NextEdit.Text

theorem ne_nil_of_mem_splitLines (member : line ∈ splitLines text) : line ≠ [] := by
  fun_induction splitLines text with
  | case1 => simp at member
  | case2 rest ih =>
    rcases List.mem_cons.mp member with rfl | later
    · exact List.cons_ne_nil _ _
    · exact ih later
  | case3 char rest _ isBreak ih =>
    rcases List.mem_cons.mp member with rfl | later
    · exact List.cons_ne_nil _ _
    · exact ih later
  | case4 char rest _ _ split ih =>
    cases List.mem_singleton.mp member
    exact List.cons_ne_nil _ _
  | case5 char rest _ _ first lines split ih =>
    rw [split] at ih
    rcases List.mem_cons.mp member with rfl | later
    · exact List.cons_ne_nil _ _
    · exact ih (List.mem_cons_of_mem _ later)

theorem endsLine_append_newline (text : Text) : endsLine (text ++ ['\n']) = true := by
  simp [endsLine]

theorem endsLine_closeLine (text : Text) : endsLine (closeLine text) = true := by
  unfold closeLine
  split
  · assumption
  · exact endsLine_append_newline text

theorem closeLine_of_endsLine (ends : endsLine text = true) : closeLine text = text :=
  if_pos ends

/-- Closing a line keeps the text and adds a newline at most. -/
theorem closeLine_eq_append (text : Text) :
    closeLine text = text ++ if endsLine text then [] else ['\n'] := by
  unfold closeLine
  split
  · exact (List.append_nil text).symm
  · rfl

/-- Whether a text ends its line is decided by its last part that is not empty. -/
theorem endsLine_append (left : Text) (nonempty : right ≠ []) :
    endsLine (left ++ right) = endsLine right := by
  rw [endsLine, endsLine, List.getLast?_append, List.getLast?_eq_some_getLast nonempty,
    Option.some_or]

theorem closeLine_append (left : Text) (nonempty : right ≠ []) :
    closeLine (left ++ right) = left ++ closeLine right := by
  unfold closeLine
  rw [endsLine_append left nonempty]
  split
  · rfl
  · exact List.append_assoc _ _ _

/-- A text that does not end its line leaves the closing to what follows it, even to nothing. -/
theorem closeLine_append_of_unended (unended : endsLine left = false) (right : Text) :
    closeLine (left ++ right) = left ++ closeLine right := by
  by_cases empty : right = []
  · have empties : endsLine [] = false := rfl
    rw [empty, List.append_nil, closeLine, closeLine, unended, empties]
    rfl
  · exact closeLine_append left empty

theorem closeLine_ne_nil (text : Text) : closeLine text ≠ [] := by
  intro empty
  have ends := endsLine_closeLine text
  rw [empty] at ends
  cases ends

/-- Closing loses as much of a text as without the line in front of it. -/
theorem closeLine_eq_of_line_eq (same : closeLine ('\n' :: first) = closeLine ('\n' :: second)) :
    closeLine first = closeLine second := by
  have closed (text : Text) (full : text ≠ []) : closeLine ('\n' :: text) = '\n' :: closeLine text :=
    closeLine_append ['\n'] full
  have blank : closeLine ['\n'] = ['\n'] := rfl
  by_cases firstEmpty : first = [] <;> by_cases secondEmpty : second = []
  · rw [firstEmpty, secondEmpty]
  · rw [firstEmpty, closed second secondEmpty, blank] at same
    exact absurd (List.cons.inj same).2.symm (closeLine_ne_nil second)
  · rw [secondEmpty, closed first firstEmpty, blank] at same
    exact absurd (List.cons.inj same).2 (closeLine_ne_nil first)
  · rw [closed first firstEmpty, closed second secondEmpty] at same
    exact (List.cons.inj same).2

theorem exists_line_of_endsLine (ends : endsLine text = true) : ∃ line, text = line ++ ['\n'] :=
  List.getLast?_eq_some_iff.mp (beq_iff_eq.mp ends)

theorem dropEnding_append (text ending : Text) : dropEnding ending (text ++ ending) = text := by
  have ends : ending.isSuffixOf (text ++ ending) = true :=
    List.isSuffixOf_iff_suffix.mpr (List.suffix_append text ending)
  rw [dropEnding, if_pos ends, List.length_append, Nat.add_sub_cancel, List.take_left]

theorem dropEnding_of_not_suffix (absent : ¬ ending <:+ text) : dropEnding ending text = text :=
  if_neg (mt List.isSuffixOf_iff_suffix.mp absent)

theorem dropEnding_isPrefix (ending text : Text) : dropEnding ending text <+: text := by
  rw [dropEnding]
  split
  · exact List.take_prefix _ text
  · exact List.prefix_rfl

theorem dropEnding_of_unended (unended : endsLine text = false) :
    dropEnding ['\n'] text = text := by
  apply dropEnding_of_not_suffix
  rintro ⟨line, rfl⟩
  rw [endsLine_append_newline] at unended
  cases unended

/-- The last newline of a text is that of its last part that is not empty. -/
theorem dropEnding_newline_append (left : Text) (nonempty : right ≠ []) :
    dropEnding ['\n'] (left ++ right) = left ++ dropEnding ['\n'] right := by
  cases ends : endsLine right with
  | true =>
    obtain ⟨line, rfl⟩ := exists_line_of_endsLine ends
    rw [← List.append_assoc, dropEnding_append, dropEnding_append]
  | false =>
    have unended := (endsLine_append left nonempty).trans ends
    rw [dropEnding_of_unended ends, dropEnding_of_unended unended]

theorem byteCount_dropEnding_newline (text : Text) :
    (dropEnding ['\n'] text).byteCount = text.byteCount - (if text.endsLine then 1 else 0) := by
  cases ends : endsLine text with
  | true =>
    obtain ⟨line, rfl⟩ := exists_line_of_endsLine ends
    rw [dropEnding_append, byteCount_append]
    rfl
  | false => rw [dropEnding_of_unended ends]; rfl

end NextEdit.Text
