import NextEdit.Answer
import NextEdit.Proofs.Text.Lines
import NextEdit.Proofs.Text.Measure
import Mathlib.Data.List.TakeWhile

/-! Where a prefill is cut. Within its share of the text it ends behind the last newline, and takes
the newlines that follow even past the share; without a newline it ends in front of the last space. So
no character and no run of newlines is split, and only newlines can stand past the share. -/
namespace NextEdit

namespace Text

variable {char : Char} {front back text : Text}

private theorem passes_reverse (absent : char ∉ back) :
    ∀ other ∈ back.reverse, (other != char) = true := by
  intro other member
  exact bne_iff_ne.mpr fun same => absent (same ▸ List.mem_reverse.mp member)

theorem beforeLast?_append (front : Text) (absent : char ∉ back) :
    (front ++ char :: back).beforeLast? char = some front := by
  have stops : ((front ++ char :: back).reverse).dropWhile (· != char) = char :: front.reverse := by
    rw [List.reverse_append, List.reverse_cons, List.append_assoc,
      List.dropWhile_append_of_pos (passes_reverse absent)]
    simp
  rw [beforeLast?, stops]
  exact congrArg some (List.reverse_reverse front)

theorem beforeLast?_of_not_mem (absent : char ∉ text) : text.beforeLast? char = none := by
  rw [beforeLast?, List.dropWhile_eq_nil_iff.mpr (passes_reverse absent)]

/-- A character that occurs in a text occurs a last time. -/
theorem exists_last (member : char ∈ text) :
    ∃ front back, text = front ++ char :: back ∧ char ∉ back := by
  obtain ⟨back, front, parts, absent⟩ := List.eq_append_cons_of_mem (List.mem_reverse.mpr member)
  refine ⟨front.reverse, back.reverse, ?_, mt List.mem_reverse.mp absent⟩
  rw [← List.reverse_reverse text, parts]
  simp

theorem eq_newline_of_mem_encode {byte : UInt8} (newlines : ∀ char ∈ text, char = '\n')
    (member : byte ∈ encode text) : byte = 10 := by
  obtain ⟨char, inText, inChar⟩ := List.mem_flatMap.mp member
  rw [newlines char inText] at inChar
  exact List.mem_singleton.mp inChar

end Text

/-- The part of an editable text that a prefill is cut from. -/
def prefillSource (editable : Text) : Text :=
  editable.takeBytes (editable.byteCount / 10)

section Cuts

variable {editable lines words back : Text}

theorem prefillSource_isPrefix (editable : Text) : prefillSource editable <+: editable :=
  Text.takeBytes_isPrefix _ _

theorem byteCount_prefillSource_le (editable : Text) :
    (prefillSource editable).byteCount ≤ editable.byteCount / 10 :=
  Text.byteCount_takeBytes_le _ _

/-- Behind the last newline of its share a prefill goes on with all newlines that follow, and stops in
front of anything else. -/
theorem prefill_of_lines (share : prefillSource editable = lines ++ '\n' :: back)
    (last : '\n' ∉ back) :
    ∃ run rest, prefill editable = lines ++ '\n' :: run ∧ (∀ char ∈ run, char = '\n') ∧
      editable = prefill editable ++ rest ∧ rest.head? ≠ some '\n' := by
  obtain ⟨rest, parts⟩ := prefillSource_isPrefix editable
  rw [share, List.append_assoc] at parts
  have found : (editable.takeBytes (editable.byteCount / prefillShare)).beforeLast? '\n' =
      some lines := by
    rw [← Text.beforeLast?_append lines last, ← share]
    rfl
  have cut : prefill editable =
      lines ++ '\n' :: (back ++ rest).takeWhile (· == '\n') := by
    rw [prefill]
    simp only [found]
    rw [← parts, List.drop_left]
    rfl
  refine ⟨(back ++ rest).takeWhile (· == '\n'), (back ++ rest).dropWhile (· == '\n'), cut, ?_, ?_, ?_⟩
  · intro char member
    exact beq_iff_eq.mp (List.all_eq_true.mp List.all_takeWhile char member)
  · rw [cut, List.append_assoc, List.cons_append, List.takeWhile_append_dropWhile, ← parts]
    rfl
  · intro next
    have stops := List.head?_dropWhile_not (· == '\n') (back ++ rest)
    rw [next] at stops
    exact absurd stops (by decide)

theorem prefill_of_words (unbroken : '\n' ∉ prefillSource editable)
    (share : prefillSource editable = words ++ ' ' :: back) (last : ' ' ∉ back) :
    prefill editable = words := by
  have lines := Text.beforeLast?_of_not_mem unbroken
  have space := Text.beforeLast?_append words last
  rw [← share] at space
  rw [prefillSource] at lines space
  simp only [prefill, prefillShare, lines, space, Option.getD_some]

theorem prefill_of_word (unbroken : '\n' ∉ prefillSource editable)
    (single : ' ' ∉ prefillSource editable) : prefill editable = prefillSource editable := by
  have lines := Text.beforeLast?_of_not_mem unbroken
  have space := Text.beforeLast?_of_not_mem single
  rw [prefillSource] at lines space ⊢
  simp only [prefill, prefillShare, lines, space, Option.getD_none]

/-- A share without a newline gives a prefill that is a beginning of it. -/
theorem prefill_isPrefix_share (unbroken : '\n' ∉ prefillSource editable) :
    prefill editable <+: prefillSource editable := by
  by_cases spaced : ' ' ∈ prefillSource editable
  · obtain ⟨words, back, share, last⟩ := Text.exists_last spaced
    rw [prefill_of_words unbroken share last, share]
    exact List.prefix_append words _
  · exact prefill_of_word unbroken spaced ▸ List.prefix_rfl

theorem prefill_isPrefix (editable : Text) : prefill editable <+: editable := by
  by_cases broken : '\n' ∈ prefillSource editable
  · obtain ⟨lines, back, share, last⟩ := Text.exists_last broken
    obtain ⟨_, rest, _, _, parts, _⟩ := prefill_of_lines share last
    exact ⟨rest, parts.symm⟩
  · exact (prefill_isPrefix_share broken).trans (prefillSource_isPrefix editable)

/-- Past its share, a prefill holds newlines only. -/
theorem newline_of_byte_past_share {byte : UInt8} (past : editable.byteCount / 10 ≤ index)
    (found : (Text.encode (prefill editable))[index]? = some byte) : byte = 10 := by
  have size := byteCount_prefillSource_le editable
  by_cases broken : '\n' ∈ prefillSource editable
  · obtain ⟨lines, back, share, last⟩ := Text.exists_last broken
    obtain ⟨run, _, cut, newlines, _, _⟩ := prefill_of_lines share last
    rw [share, List.append_cons, Text.byteCount_append] at size
    rw [cut, List.append_cons, Text.encode_append,
      List.getElem?_append_right (by rw [Text.length_encode]; omega)] at found
    exact Text.eq_newline_of_mem_encode newlines (List.mem_of_getElem? found)
  · obtain ⟨rest, share⟩ := prefill_isPrefix_share broken
    rw [← share, Text.byteCount_append] at size
    rw [List.getElem?_eq_none (by rw [Text.length_encode]; omega)] at found
    cases found

theorem newline_mem_prefill_iff : '\n' ∈ prefill editable ↔ '\n' ∈ prefillSource editable := by
  by_cases broken : '\n' ∈ prefillSource editable
  · obtain ⟨lines, back, share, last⟩ := Text.exists_last broken
    obtain ⟨run, _, cut, _⟩ := prefill_of_lines share last
    refine iff_of_true ?_ broken
    rw [cut]
    exact List.mem_append_right lines List.mem_cons_self
  · have within := (prefill_isPrefix_share broken).subset
    exact iff_of_false (fun member => broken (within member)) broken

/-- A prefill that ends in a newline stops in front of another character, or takes the whole text. -/
theorem head?_ne_newline_of_endsLine (parts : editable = prefill editable ++ rest)
    (ends : (prefill editable).endsLine = true) : rest.head? ≠ some '\n' := by
  obtain ⟨line, closed⟩ := Text.exists_line_of_endsLine ends
  have member : '\n' ∈ prefill editable := by
    rw [closed]
    exact List.mem_append_right line List.mem_cons_self
  obtain ⟨lines, back, share, last⟩ := Text.exists_last (newline_mem_prefill_iff.mp member)
  obtain ⟨_, left, _, _, others, stops⟩ := prefill_of_lines share last
  rwa [List.append_cancel_left (parts.symm.trans others)]

end Cuts

/-- A prefill is cut from the longest beginning of the text within a tenth of its bytes. It ends
behind the last newline of that beginning and the newlines that follow, which are all that stands past
the tenth, and splits no run of newlines; without a newline it ends in front of the last space. -/
theorem prefill_cut_safely (editable : Text) :
    let limit := editable.byteCount / 10
    let share := prefillSource editable
    (share <+: editable ∧ share.byteCount ≤ limit ∧
      ∀ front : Text, front <+: editable → front.byteCount ≤ limit → front <+: share) ∧
    prefill editable <+: editable ∧ editable.isBoundary (prefill editable).byteCount = true ∧
    (∀ index byte, limit ≤ index → (Text.encode (prefill editable))[index]? = some byte →
      byte = 10) ∧
    ('\n' ∈ prefill editable ↔ '\n' ∈ share) ∧
    (∀ lines back, share = lines ++ '\n' :: back → '\n' ∉ back →
      ∃ run, prefill editable = lines ++ '\n' :: run ∧ ∀ char ∈ run, char = '\n') ∧
    (∀ rest, editable = prefill editable ++ rest → (prefill editable).endsLine = true →
      rest.head? ≠ some '\n') ∧
    ('\n' ∉ share →
      (∀ words back, share = words ++ ' ' :: back → ' ' ∉ back → prefill editable = words) ∧
      (' ' ∉ share → prefill editable = share)) := by
  intro limit share
  refine ⟨⟨prefillSource_isPrefix editable, byteCount_prefillSource_le editable, ?_⟩,
    prefill_isPrefix editable, Text.isBoundary_of_isPrefix (prefill_isPrefix editable), ?_,
    newline_mem_prefill_iff, ?_, ?_, ?_⟩
  · intro front stands fits
    exact Text.isPrefix_takeBytes stands fits
  · intro index byte past found
    exact newline_of_byte_past_share past found
  · intro lines back parts last
    obtain ⟨run, _, cut, newlines, _, _⟩ := prefill_of_lines parts last
    exact ⟨run, cut, newlines⟩
  · intro rest parts ends
    exact head?_ne_newline_of_endsLine parts ends
  · intro unbroken
    exact ⟨fun words back parts last => prefill_of_words unbroken parts last,
      prefill_of_word unbroken⟩

/-- The run of newlines that starts within the first tenth is taken as a whole. -/
example : prefill "a\n\n\nbcdefghijklmnopqrst".toList = "a\n\n\n".toList := by decide +kernel

end NextEdit
