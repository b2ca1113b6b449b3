import NextEdit.Proofs.Text.Occurrence

/-! Scans from the left: counting and erasing. A scan takes a whole occurrence where one stands and
one character elsewhere, which gives its induction; two texts that no occurrence straddles are
scanned apart. -/
namespace NextEdit.Text

/-- The induction of a scan from the left. -/
theorem scanInduction {motive : Text → Prop} {marker : Text} (full : marker ≠ []) (nil : motive [])
    (hit : ∀ rest, motive rest → motive (marker ++ rest))
    (miss : ∀ char rest, ¬ marker <+: char :: rest → motive rest → motive (char :: rest))
    (text : Text) : motive text := by
  have step : ∀ size, ∀ text : Text, text.length ≤ size → motive text := by
    intro size
    induction size with
    | zero =>
      intro text bound
      rw [List.length_eq_zero_iff.mp (Nat.le_zero.mp bound)]
      exact nil
    | succ size ih =>
      intro text bound
      cases text with
      | nil => exact nil
      | cons char rest =>
        by_cases here : marker <+: char :: rest
        · obtain ⟨tail, parts⟩ := here
          have shorter := congrArg List.length parts
          have := List.length_pos_iff.mpr full
          rw [List.length_append] at shorter
          rw [← parts]
          exact hit tail (ih tail (by omega))
        · exact miss char rest here (ih rest (Nat.le_of_succ_le_succ bound))
  exact step text.length text (Nat.le_refl _)

section Count

theorem countFrom_eq (marker : Text) (skip : Nat) (text : Text) :
    countFrom marker skip text = count marker (text.drop skip) := by
  induction text generalizing skip with
  | nil => rw [List.drop_nil, countFrom, count, countFrom]
  | cons char rest ih =>
    cases skip with
    | zero => rfl
    | succ skip => rw [countFrom, ih, List.drop_succ_cons]

@[simp] theorem count_nil (marker : Text) : count marker [] = 0 := rfl

theorem count_hit (full : marker ≠ []) (rest : Text) :
    count marker (marker ++ rest) = count marker rest + 1 := by
  obtain ⟨char, others, rfl⟩ := List.exists_cons_of_ne_nil full
  have here : (char :: others).isPrefixOf (char :: (others ++ rest)) = true :=
    List.isPrefixOf_iff_prefix.mpr ⟨rest, rfl⟩
  rw [List.cons_append, count, countFrom, if_pos here, countFrom_eq, List.length_cons,
    Nat.add_sub_cancel, List.drop_left]

theorem count_miss (absent : ¬ marker <+: char :: rest) :
    count marker (char :: rest) = count marker rest := by
  rw [count, countFrom, if_neg (mt List.isPrefixOf_iff_prefix.mp absent), count]

theorem count_self (full : marker ≠ []) : count marker marker = 1 := by
  have whole := count_hit full []
  rwa [List.append_nil] at whole

theorem count_eq_zero_iff (full : marker ≠ []) : count marker text = 0 ↔ ¬ marker <:+: text := by
  induction text using scanInduction full with
  | nil => simp [full]
  | hit rest ih =>
    rw [count_hit full]
    simp [List.infix_append_left]
  | miss char rest absent ih => rw [count_miss absent, ih, List.infix_cons_iff, not_or,
      and_iff_right absent]

theorem count_append (full : marker ≠ []) (apart : ¬ Straddles marker left right) :
    count marker (left ++ right) = count marker left + count marker right := by
  induction left using scanInduction full with
  | nil => rw [List.nil_append, count_nil, Nat.zero_add]
  | hit rest ih =>
    have apartRest := mt (Straddles.of_suffix · (List.suffix_append marker rest)) apart
    rw [List.append_assoc, count_hit full, count_hit full, ih apartRest]
    omega
  | miss char rest absent ih =>
    have apartRest := mt (Straddles.of_suffix · (List.suffix_cons char rest)) apart
    have absentWhole := mt (isPrefix_of_not_straddles apart (List.cons_ne_nil _ _)) absent
    rw [List.cons_append] at absentWhole ⊢
    rw [count_miss absentWhole, count_miss absent, ih apartRest]

theorem one_lt_count_iff (full : marker ≠ []) (single : EndsBefore marker marker) {text : Text} :
    1 < count marker text ↔
      ∃ front middle back, text = front ++ (marker ++ (middle ++ (marker ++ back))) := by
  constructor
  · intro twice
    induction text using scanInduction full with
    | nil => cases twice
    | hit rest ih =>
      rw [count_hit full] at twice
      have again : ¬ count marker rest = 0 := by omega
      rw [count_eq_zero_iff full, not_not] at again
      obtain ⟨middle, back, rfl⟩ := again
      exact ⟨[], middle, back, by simp only [List.nil_append, List.append_assoc]⟩
    | miss char rest absent ih =>
      rw [count_miss absent] at twice
      obtain ⟨front, middle, back, rfl⟩ := ih twice
      exact ⟨char :: front, middle, back, rfl⟩
  · rintro ⟨front, middle, back, rfl⟩
    rw [count_append full (single.not_straddles _ _), count_hit full,
      count_append full (single.not_straddles _ _), count_hit full]
    omega

theorem Inline.not_isPrefix_line (inline : Inline marker) (rest : Text) :
    ¬ marker <+: '\n' :: rest := by
  intro found
  obtain ⟨char, others, rfl⟩ := List.exists_cons_of_ne_nil inline.1
  obtain ⟨rfl, _⟩ := List.cons_prefix_cons.mp found
  exact inline.2 List.mem_cons_self

theorem Inline.count_line (inline : Inline marker) (left right : Text) :
    count marker (left ++ '\n' :: right) = count marker left + count marker right := by
  rw [count_append inline.1 (inline.not_straddles_before left right),
    count_miss (inline.not_isPrefix_line right)]

/-- The occurrences of a marker in several texts, each scanned by itself. -/
def countEach (marker : Text) : List Text → Nat
  | [] => 0
  | text :: rest => count marker text + countEach marker rest

theorem countEach_append (marker : Text) (texts others : List Text) :
    countEach marker (texts ++ others) = countEach marker texts + countEach marker others := by
  induction texts with
  | nil => exact (Nat.zero_add _).symm
  | cons text rest ih => rw [List.cons_append, countEach, ih, countEach, Nat.add_assoc]

theorem countEach_map_congr {items : List α} {write other : α → Text}
    (same : ∀ item ∈ items, count marker (write item) = count marker (other item)) :
    countEach marker (items.map write) = countEach marker (items.map other) := by
  induction items with
  | nil => rfl
  | cons item rest ih =>
    obtain ⟨first, later⟩ := List.forall_mem_cons.mp same
    rw [List.map_cons, List.map_cons, countEach, countEach, first, ih later]

theorem countEach_eq_zero_iff (full : marker ≠ []) {texts : List Text} :
    countEach marker texts = 0 ↔ ∀ text ∈ texts, ¬ marker <:+: text := by
  induction texts with
  | nil => exact iff_of_true rfl (List.forall_mem_nil _)
  | cons text rest ih =>
    rw [countEach, Nat.add_eq_zero_iff, count_eq_zero_iff full, ih, List.forall_mem_cons]

end Count

section Erase

theorem eraseFrom_eq (size : Text → Nat) (skip : Nat) (text : Text) :
    eraseFrom size skip text = eraseEach size (text.drop skip) := by
  induction text generalizing skip with
  | nil => rw [List.drop_nil, eraseFrom, eraseEach, eraseFrom]
  | cons char rest ih =>
    cases skip with
    | zero => rfl
    | succ skip => rw [eraseFrom, ih, List.drop_succ_cons]

/-- A scan leaves out and adds nothing. -/
theorem eraseFrom_sublist (size : Text → Nat) (skip : Nat) (text : Text) :
    (eraseFrom size skip text).Sublist text := by
  induction text generalizing skip with
  | nil => exact List.Sublist.refl []
  | cons char rest ih =>
    cases skip with
    | zero =>
      rw [eraseFrom]
      split
      · exact (ih 0).cons_cons char
      · exact (ih _).cons char
    | succ skip => exact (ih skip).cons char

/-- A scan changes nothing exactly where it has nothing to leave out. -/
theorem eraseEach_eq_self_iff {size : Text → Nat} (empty : size [] = 0) :
    eraseEach size text = text ↔ ∀ rest, rest <:+ text → size rest = 0 := by
  induction text with
  | nil =>
    refine iff_of_true rfl fun rest stands => ?_
    rw [List.suffix_nil.mp stands, empty]
  | cons char rest ih =>
    have split : (∀ other, other <:+ char :: rest → size other = 0) ↔
        size (char :: rest) = 0 ∧ ∀ other, other <:+ rest → size other = 0 := by
      simp only [List.suffix_cons_iff, forall_eq_or_imp]
    rw [split, ← ih, eraseEach, eraseFrom]
    cases size (char :: rest) with
    | zero => simp [eraseEach]
    | succ skip =>
      have shorter := (eraseFrom_sublist size skip rest).length_le
      refine iff_of_false (fun same => ?_) (fun both => nomatch both.1)
      change eraseFrom size skip rest = char :: rest at same
      rw [same, List.length_cons] at shorter
      omega

@[simp] theorem eraseAll_nil (marker : Text) : eraseAll marker [] = [] := rfl

theorem eraseAll_hit (full : marker ≠ []) (rest : Text) :
    eraseAll marker (marker ++ rest) = eraseAll marker rest := by
  obtain ⟨char, others, rfl⟩ := List.exists_cons_of_ne_nil full
  have here : (char :: others).isPrefixOf (char :: (others ++ rest)) = true :=
    List.isPrefixOf_iff_prefix.mpr ⟨rest, rfl⟩
  simp only [List.cons_append, eraseAll, eraseEach, eraseFrom, here, if_true, List.length_cons]
  rw [eraseFrom_eq, List.drop_left]
  rfl

theorem eraseAll_miss (absent : ¬ marker <+: char :: rest) :
    eraseAll marker (char :: rest) = char :: eraseAll marker rest := by
  simp only [eraseAll, eraseEach, eraseFrom, if_neg (mt List.isPrefixOf_iff_prefix.mp absent)]

theorem eraseAll_of_free (free : ¬ marker <:+: text) :
    eraseAll marker text = text := by
  induction text with
  | nil => rfl
  | cons char rest ih =>
    rw [List.infix_cons_iff, not_or] at free
    rw [eraseAll_miss free.1, ih free.2]

theorem eraseAll_append (full : marker ≠ []) (apart : ¬ Straddles marker left right) :
    eraseAll marker (left ++ right) = eraseAll marker left ++ eraseAll marker right := by
  induction left using scanInduction full with
  | nil => rfl
  | hit rest ih =>
    have apartRest := mt (Straddles.of_suffix · (List.suffix_append marker rest)) apart
    rw [List.append_assoc, eraseAll_hit full, eraseAll_hit full, ih apartRest]
  | miss char rest absent ih =>
    have apartRest := mt (Straddles.of_suffix · (List.suffix_cons char rest)) apart
    have absentWhole := mt (isPrefix_of_not_straddles apart (List.cons_ne_nil _ _)) absent
    rw [List.cons_append] at absentWhole ⊢
    rw [eraseAll_miss absentWhole, eraseAll_miss absent, ih apartRest, List.cons_append]

theorem Inline.eraseAll_line (inline : Inline marker) (left right : Text) :
    eraseAll marker (left ++ '\n' :: right) =
      eraseAll marker left ++ '\n' :: eraseAll marker right := by
  rw [eraseAll_append inline.1 (inline.not_straddles_before left right),
    eraseAll_miss (inline.not_isPrefix_line right)]

theorem eraseAll_join_append (full : marker ≠ []) (single : EndsBefore marker marker)
    {pieces : List Text} (free : ∀ piece ∈ pieces, ¬ marker <:+: piece)
    (apart : ¬ Straddles marker pieces.flatten tail) :
    eraseAll marker (join marker pieces ++ tail) = pieces.flatten ++ eraseAll marker tail := by
  fun_induction join marker pieces with
  | case1 => rfl
  | case2 piece =>
    rw [List.flatten_singleton] at apart ⊢
    rw [eraseAll_append full apart, eraseAll_of_free (free piece List.mem_cons_self)]
  | case3 piece rest _ ih =>
    obtain ⟨pieceFree, restFree⟩ := List.forall_mem_cons.mp free
    have apartRest := mt (Straddles.of_suffix · (List.suffix_append piece rest.flatten)) apart
    rw [List.append_assoc, List.append_assoc, eraseAll_append full (single.not_straddles _ _),
      eraseAll_hit full, eraseAll_of_free pieceFree, ih restFree apartRest, List.flatten_cons,
      List.append_assoc]

/-- Erasing takes out again what was put between the pieces of a text. -/
theorem eraseAll_join (full : marker ≠ []) (single : EndsBefore marker marker)
    {pieces : List Text} (free : ∀ piece ∈ pieces, ¬ marker <:+: piece) :
    eraseAll marker (join marker pieces) = pieces.flatten := by
  have whole := eraseAll_join_append full single free (not_straddles_nil_right _ _)
  rwa [List.append_nil, eraseAll_nil, List.append_nil] at whole

end Erase

end NextEdit.Text
