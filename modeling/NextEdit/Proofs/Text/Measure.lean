import NextEdit.Text.Utf8

/-! Byte offsets as places between characters: a cut at the size of a beginning gives that beginning
back, a boundary is the size of some beginning, and the UTF-8 form of a text has as many bytes as
the text measures. -/
namespace NextEdit.Text

@[simp] theorem encode_append (left right : Text) :
    encode (left ++ right) = encode left ++ encode right := List.flatMap_append

@[simp] theorem length_encode (text : Text) : (encode text).length = byteCount text := by
  induction text with
  | nil => rfl
  | cons char rest ih =>
    change (String.utf8EncodeChar char ++ encode rest).length = _
    rw [List.length_append, String.length_utf8EncodeChar, ih, byteCount_cons]

/-- The bytes of a part stand where the part stands. -/
theorem take_drop_encode (front middle back : Text) :
    ((encode (front ++ (middle ++ back))).drop (byteCount front)).take (byteCount middle) =
      encode middle := by
  rw [encode_append, encode_append, List.drop_left' (length_encode front),
    List.take_left' (length_encode middle)]

theorem byteCount_pos {text : Text} (nonempty : text ≠ []) : 0 < byteCount text := by
  cases text with
  | nil => exact absurd rfl nonempty
  | cons char rest =>
    have := char.utf8Size_pos
    rw [byteCount_cons]
    omega

theorem eq_nil_of_byteCount (empty : byteCount text = 0) : text = [] := by
  cases text with
  | nil => rfl
  | cons char rest =>
    have := byteCount_pos (List.cons_ne_nil char rest)
    omega

theorem takeBytes_append (left right : Text) :
    takeBytes (byteCount left) (left ++ right) = left := by
  induction left with
  | nil =>
    cases right with
    | nil => rfl
    | cons char rest =>
      have := char.utf8Size_pos
      simp only [byteCount_nil, List.nil_append, takeBytes]
      exact if_neg (by omega)
  | cons char rest ih => simp [takeBytes, ih]

theorem takeBytes_isPrefix (limit : Nat) (text : Text) : takeBytes limit text <+: text :=
  ⟨dropBytes limit text, takeBytes_append_dropBytes limit text⟩

/-- Nothing longer fits: a beginning of a text within the limit is a beginning of what is taken. -/
theorem isPrefix_takeBytes (stands : front <+: text) (fits : byteCount front ≤ limit) :
    front <+: takeBytes limit text := by
  obtain ⟨back, rfl⟩ := stands
  induction front generalizing limit with
  | nil => exact List.nil_prefix
  | cons char rest ih =>
    rw [byteCount_cons] at fits
    rw [List.cons_append, takeBytes, if_pos (by omega)]
    exact List.cons_prefix_cons.mpr ⟨rfl, ih (by omega)⟩

theorem takeBytes_of_byteCount_le (fits : byteCount text ≤ limit) : takeBytes limit text = text := by
  induction text generalizing limit with
  | nil => rfl
  | cons char rest ih =>
    rw [byteCount_cons] at fits
    rw [takeBytes, if_pos (Nat.le_trans (Nat.le_add_right _ _) fits), ih (Nat.le_sub_of_add_le' fits)]

theorem dropBytes_of_byteCount_le (fits : byteCount text ≤ limit) : dropBytes limit text = [] := by
  have parts := takeBytes_append_dropBytes limit text
  rw [takeBytes_of_byteCount_le fits] at parts
  exact List.append_right_eq_self.mp parts

/-- A boundary of a text is the size of one of its beginnings. -/
theorem isBoundary_iff : isBoundary text offset = true ↔
    ∃ left right, text = left ++ right ∧ byteCount left = offset := by
  constructor
  · intro boundary
    exact ⟨takeBytes offset text, dropBytes offset text,
      (takeBytes_append_dropBytes offset text).symm, beq_iff_eq.mp boundary⟩
  · rintro ⟨left, right, rfl, rfl⟩
    rw [isBoundary, takeBytes_append]
    exact beq_self_eq_true _

theorem isBoundary_of_isPrefix (stands : front <+: text) :
    isBoundary text (byteCount front) = true := by
  obtain ⟨back, rfl⟩ := stands
  exact isBoundary_iff.mpr ⟨front, back, rfl, rfl⟩

theorem le_byteCount_of_isBoundary {text : Text} (boundary : text.isBoundary offset = true) :
    offset ≤ text.byteCount := by
  obtain ⟨left, right, rfl, rfl⟩ := isBoundary_iff.mp boundary
  rw [byteCount_append]
  exact Nat.le_add_right _ _

end NextEdit.Text
