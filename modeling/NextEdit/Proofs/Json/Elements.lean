import NextEdit.Proofs.Json.Number

/-! Elements between commas. The items of a list and the members of an object are read by one
recursion and written in one shape, so both are read back by one lemma. -/
namespace NextEdit.Json

section Blanks

variable {blanks : Text}

/-- A text that a reader passes over. -/
def IsBlank (blanks : Text) : Prop :=
  ∀ char ∈ blanks, isSpace char = true

theorem skipSpace_append (blank : IsBlank blanks) (text : Text) :
    skipSpace (blanks ++ text) = skipSpace text :=
  List.dropWhile_append_of_pos blank

theorem skipSpace_cons (solid : isSpace char = false) (rest : Text) :
    skipSpace (char :: rest) = char :: rest := by
  simp [skipSpace, solid]

theorem endsNumber_of_isSpace (space : isSpace char = true) (rest : Text) :
    EndsNumber (char :: rest) := by
  refine endsNumber_cons ?_ rest
  simp only [isSpace, Bool.or_eq_true, beq_iff_eq] at space
  rcases space with ((rfl | rfl) | rfl) | rfl <;> decide

theorem endsNumber_append (blank : IsBlank blanks) (ends : EndsNumber rest) :
    EndsNumber (blanks ++ rest) := by
  cases blanks with
  | nil => exact ends
  | cons char blanks => exact endsNumber_of_isSpace (blank char List.mem_cons_self) _

end Blanks

section Reading

variable {α : Type} {element : Reader α}

/-- The characters that close a list or an object. -/
def closers : List Char :=
  [']', '\x7d']

/-- Elements as they are written: a comma between neighbours, blanks in front of what closes them. -/
def writeUpTo (close : Char) (blanks : Text) (write : α → Text) (first : α) (more : List α) : Text :=
  write first ++ (more.flatMap (fun value => ',' :: write value) ++ (blanks ++ [close]))

theorem length_le_count_flatMap {write : α → Text} (values : List α) :
    values.length ≤ List.count ',' (values.flatMap fun value => ',' :: write value) := by
  induction values with
  | nil => exact Nat.le_refl _
  | cons value values ih =>
    rw [List.flatMap_cons, List.count_append, List.count_cons_self, List.length_cons]
    omega

theorem lt_mostElements_writeUpTo (close : Char) (blanks : Text) (write : α → Text) (first : α)
    (more : List α) (rest : Text) :
    more.length < mostElements (writeUpTo close blanks write first more ++ rest) := by
  have commas : more.length ≤ List.count ',' (more.flatMap fun value => ',' :: write value) :=
    length_le_count_flatMap more
  simp only [mostElements, writeUpTo, List.count_append]
  omega

theorem exists_first_of_readUpTo (reads : readUpTo close element count text = some found) :
    ∃ first, element text = some first := by
  cases count with
  | zero => cases reads
  | succ count =>
    rw [readUpTo] at reads
    obtain ⟨first, here, _⟩ := Option.bind_eq_some_iff.mp reads
    exact ⟨first, here⟩

/-- Elements are read back, each up to what stands behind it. -/
theorem readUpTo_writeUpTo {write : α → Text} {first : α} {more : List α}
    (reads : ∀ value ∈ first :: more, ∀ rest, EndsNumber rest →
      element (write value ++ rest) = some (value, rest))
    (blank : IsBlank blanks) (closes : close ∈ closers) (enough : more.length < count)
    (rest : Text) :
    readUpTo close element count (writeUpTo close blanks write first more ++ rest) =
      some (first :: more, rest) := by
  have closing : isSpace close = false ∧ close ≠ ',' ∧ close.isDigit = false ∧ close ≠ '.' ∧
      close ≠ 'e' ∧ close ≠ 'E' := by
    simp only [closers, List.mem_cons, List.not_mem_nil, or_false] at closes
    rcases closes with rfl | rfl <;> decide
  obtain ⟨solid, notComma, ends⟩ := closing
  simp only [writeUpTo, List.append_assoc, List.cons_append, List.nil_append]
  induction more generalizing first count with
  | nil =>
    obtain ⟨count, rfl⟩ := Nat.exists_eq_add_one_of_ne_zero (Nat.ne_of_gt enough)
    have here := reads first (by simp) (blanks ++ close :: rest)
      (endsNumber_append blank (endsNumber_cons ends rest))
    simp only [List.flatMap_nil, List.nil_append, readUpTo, here, Option.bind_eq_bind,
      Option.bind_some, skipSpace_append blank, skipSpace_cons solid, if_neg notComma, if_true]
  | cons second more ih =>
    obtain ⟨count, rfl⟩ := Nat.exists_eq_add_one_of_ne_zero (Nat.ne_of_gt (Nat.zero_lt_of_lt enough))
    have later := ih (fun value member => reads value (List.mem_cons_of_mem _ member))
      (Nat.lt_of_succ_lt_succ enough)
    have here := reads first (by simp)
      (',' :: (write second ++ (more.flatMap (fun value => ',' :: write value) ++
        (blanks ++ close :: rest)))) (endsNumber_cons (by decide) _)
    simp only [List.flatMap_cons, List.cons_append, List.append_assoc, readUpTo, here,
      Option.bind_eq_bind, Option.bind_some, skipSpace_cons (show isSpace ',' = false by decide),
      if_true, later, Option.map_some]

end Reading

end NextEdit.Json
