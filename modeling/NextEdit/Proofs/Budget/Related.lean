import NextEdit.Proofs.Budget.Greedy
import NextEdit.Proofs.Text.Lines
import NextEdit.Related

/-! What the related files section costs. Every file writes one block, whatever stands in front of
it, and every excerpt is charged exactly the tokens of what it writes. The files kept cost no more
than the budget, and a budget that pays for all files leaves out only those without an excerpt. -/
namespace NextEdit

theorem Text.byteCount_closeLine (text : Text) :
    text.closeLine.byteCount = text.byteCount + (if text.endsLine then 0 else 1) := by
  unfold closeLine
  split
  · rfl
  · rw [byteCount_append]
    rfl

namespace Related

namespace Excerpt

/-- What an excerpt writes behind a closed line: nothing for an empty text, which has no line to
close, and the ellipsis where rows follow. -/
def block (maxRow : Nat) (excerpt : Excerpt) : Text :=
  (if excerpt.text.isEmpty then [] else excerpt.text.closeLine) ++
    (if excerpt.isCutShort maxRow then Marker.ellipsis else [])

theorem endsLine_appendTo (maxRow : Nat) (text : Text) (excerpt : Excerpt) :
    (excerpt.appendTo maxRow text).endsLine = true := by
  rw [appendTo]
  split
  · rw [Text.endsLine_append _ (by decide)]
    decide
  · rw [List.append_nil]
    exact Text.endsLine_closeLine _

theorem appendTo_eq {text : Text} (closed : text.endsLine = true) (maxRow : Nat)
    (excerpt : Excerpt) : excerpt.appendTo maxRow text = text ++ excerpt.block maxRow := by
  have written : Text.closeLine (text ++ excerpt.text) =
      text ++ (if excerpt.text.isEmpty then [] else excerpt.text.closeLine) := by
    split
    · rename_i empty
      rw [List.isEmpty_iff.mp empty, List.append_nil, Text.closeLine_of_endsLine closed]
    · rename_i full
      exact Text.closeLine_append text (fun empty => full (List.isEmpty_iff.mpr empty))
  rw [appendTo, written, block, List.append_assoc]

/-- The bytes an excerpt is charged for: its text, the newline it does not end with, and an ellipsis
where rows follow. -/
def chargedBytes (maxRow : Nat) (excerpt : Excerpt) : Nat :=
  excerpt.text.byteCount + (if excerpt.text.endsLine then 0 else 1) +
    (if excerpt.isCutShort maxRow then Marker.ellipsis.byteCount else 0)

theorem cost_eq (maxRow : Nat) (excerpt : Excerpt) :
    excerpt.cost maxRow = excerpt.chargedBytes maxRow / bytesPerToken := rfl

/-- An excerpt writes what it is charged for, less the newline of an empty text. -/
theorem byteCount_block (maxRow : Nat) (excerpt : Excerpt) :
    (excerpt.block maxRow).byteCount + (if excerpt.text.isEmpty then 1 else 0) =
      excerpt.chargedBytes maxRow := by
  have dots := apply_ite Text.byteCount (excerpt.isCutShort maxRow = true) Marker.ellipsis []
  rw [block, chargedBytes, Text.byteCount_append, dots, Text.byteCount_nil]
  by_cases empty : excerpt.text = []
  · have unclosed : Text.endsLine [] = false := rfl
    rw [empty, unclosed, List.isEmpty_nil, if_pos rfl, if_pos rfl, if_neg Bool.false_ne_true,
      Text.byteCount_nil]
    omega
  · have full : excerpt.text.isEmpty = false := List.isEmpty_eq_false_iff.mpr empty
    rw [full, if_neg Bool.false_ne_true, if_neg Bool.false_ne_true, Text.byteCount_closeLine,
      Nat.add_zero]

/-- The byte charged for the newline of an empty text buys no token. -/
theorem cost_eq_tokens (maxRow : Nat) (excerpt : Excerpt) :
    excerpt.cost maxRow = (excerpt.block maxRow).tokens := by
  rw [cost_eq, ← byteCount_block, Text.tokens]
  by_cases empty : excerpt.text = []
  · rw [block, empty]
    cases excerpt.isCutShort maxRow <;> rfl
  · rw [List.isEmpty_eq_false_iff.mpr empty]
    rfl

theorem totalCost_eq (maxRow : Nat) (excerpts : List Excerpt) :
    totalCost (cost maxRow) excerpts =
      totalCost (fun excerpt => (excerpt.block maxRow).tokens) excerpts := by
  have charged : cost maxRow = fun excerpt => (excerpt.block maxRow).tokens :=
    funext (cost_eq_tokens maxRow)
  rw [charged]

end Excerpt

namespace File

theorem tokens_header_pos (file : File) (marked : 3 ≤ fileMarker.byteCount) :
    0 < (file.header fileMarker).tokens := by
  apply Text.tokens_pos
  rw [header, Text.byteCount_append, Text.byteCount_append]
  omega

/-- What a file writes: its header line and its excerpts. -/
def block (fileMarker : Text) (file : File) : Text :=
  file.header fileMarker ++ file.excerpts.flatMap (Excerpt.block file.maxRow)

/-- What a file is charged. -/
def charge (fileMarker : Text) (file : File) : Nat :=
  (file.header fileMarker).tokens + totalCost (Excerpt.cost file.maxRow) file.excerpts

theorem charge_cut (fileMarker : Text) (file : File) (kept : List Excerpt) :
    charge fileMarker { file with excerpts := kept } =
      (file.header fileMarker).tokens + totalCost (Excerpt.cost file.maxRow) kept := rfl

theorem foldl_excerpts {text : Text} (closed : text.endsLine = true) (maxRow : Nat)
    (excerpts : List Excerpt) :
    excerpts.foldl (Excerpt.appendTo maxRow) text =
      text ++ excerpts.flatMap (Excerpt.block maxRow) := by
  induction excerpts generalizing text with
  | nil => exact (List.append_nil text).symm
  | cons excerpt rest ih =>
    rw [List.foldl_cons, ih (Excerpt.endsLine_appendTo maxRow text excerpt),
      Excerpt.appendTo_eq closed, List.flatMap_cons, List.append_assoc]

theorem endsLine_foldl_excerpts {text : Text} (closed : text.endsLine = true) (maxRow : Nat)
    (excerpts : List Excerpt) :
    (excerpts.foldl (Excerpt.appendTo maxRow) text).endsLine = true := by
  induction excerpts generalizing text with
  | nil => exact closed
  | cons excerpt rest ih => exact ih (excerpt.endsLine_appendTo maxRow text)

/-- The header line makes the block of a file independent of what stands in front of it. -/
theorem appendTo_eq (fileMarker text : Text) (file : File) :
    file.appendTo fileMarker text = text ++ file.block fileMarker := by
  have closed : (text ++ file.header fileMarker).endsLine = true := by
    rw [header, ← List.append_assoc]
    exact Text.endsLine_append_newline _
  rw [appendTo, appendExcerpts, foldl_excerpts closed, block, List.append_assoc]

/-- The bytes of a file that nothing is charged for. -/
def spare (fileMarker : Text) (file : File) : Nat :=
  (file.header fileMarker).spare +
    totalCost (fun excerpt => (excerpt.block file.maxRow).spare) file.excerpts

theorem byteCount_block (fileMarker : Text) (file : File) :
    (file.block fileMarker).byteCount = 3 * file.charge fileMarker + file.spare fileMarker := by
  have line := Text.byteCount_eq_tokens (file.header fileMarker)
  have body := Text.byteCount_flatMap (Excerpt.block file.maxRow) file.excerpts
  rw [charge, spare, Excerpt.totalCost_eq, block, Text.byteCount_append]
  omega

theorem spare_le (fileMarker : Text) (file : File) :
    file.spare fileMarker ≤ 2 * (1 + file.excerpts.length) := by
  have line := Text.spare_le (file.header fileMarker)
  have body := Text.totalCost_spare_le (Excerpt.block file.maxRow) file.excerpts
  rw [spare]
  omega

end File

private theorem foldl_files (fileMarker text : Text) (files : List File) :
    files.foldl (File.appendTo fileMarker) text =
      text ++ files.flatMap (File.block fileMarker) := by
  induction files generalizing text with
  | nil => exact (List.append_nil text).symm
  | cons file rest ih =>
    rw [List.foldl_cons, ih, File.appendTo_eq, List.flatMap_cons, List.append_assoc]

private theorem writeFrom_text (fileMarker text : Text) (files : List File) :
    (writeFrom fileMarker text files).1 = text ++ files.flatMap (File.block fileMarker) := by
  induction files generalizing text with
  | nil => exact (List.append_nil text).symm
  | cons file rest ih =>
    change (writeFrom fileMarker (file.appendTo fileMarker text) rest).1 = _
    rw [ih, File.appendTo_eq, List.flatMap_cons, List.append_assoc]

/-- Without a budget the files write their blocks one after the other. -/
theorem write_text (fileMarker : Text) (files : List File) :
    (write fileMarker files).1 = files.flatMap (File.block fileMarker) :=
  writeFrom_text fileMarker [] files

/-- The section is what the files it keeps write without a budget. -/
theorem sectionWithin_text (fileMarker : Text) (budget : Int) (files : List File) :
    (sectionWithin fileMarker budget files).text =
      (write fileMarker (select fileMarker budget files)).1 := by
  rw [write_text]
  exact foldl_files fileMarker [] _

theorem byteCount_write (fileMarker : Text) (files : List File) :
    (write fileMarker files).1.byteCount =
      3 * totalCost (File.charge fileMarker) files + totalCost (File.spare fileMarker) files := by
  rw [write_text]
  induction files with
  | nil => rfl
  | cons file rest ih =>
    have first := file.byteCount_block fileMarker
    rw [totalCost_cons, totalCost_cons, List.flatMap_cons, Text.byteCount_append]
    omega

theorem mul_totalCharge_le (fileMarker : Text) (files : List File) :
    3 * totalCost (File.charge fileMarker) files ≤ (write fileMarker files).1.byteCount := by
  rw [byteCount_write]
  exact Nat.le_add_right _ _

theorem totalCost_spare_le (fileMarker : Text) (files : List File) :
    totalCost (File.spare fileMarker) files ≤
      2 * (files.length + (files.flatMap (·.excerpts)).length) := by
  induction files with
  | nil => exact Nat.le_refl _
  | cons file rest ih =>
    have first := file.spare_le fileMarker
    rw [totalCost_cons, List.length_cons, List.flatMap_cons, List.length_append]
    omega

theorem totalCharge_select_le (fileMarker : Text) (files : List File) (funded : 0 ≤ budget) :
    (totalCost (File.charge fileMarker) (select fileMarker budget files) : Int) ≤ budget := by
  induction files generalizing budget with
  | nil => exact funded
  | cons file rest ih =>
    simp only [select]
    split
    · rename_i room
      split
      · exact ih funded
      · have paid := totalCost_takeWithin_le (Excerpt.cost file.maxRow) file.excerpts
          (Int.sub_nonneg_of_le room)
        have later := ih (Int.sub_nonneg_of_le paid)
        rw [totalCost_cons, File.charge_cut]
        omega
    · exact funded

/-- The section has at most three bytes for a token of its budget, and two more for each header and
each excerpt. -/
theorem byteCount_sectionWithin_le (fileMarker : Text) (files : List File) (funded : 0 ≤ budget) :
    ((sectionWithin fileMarker budget files).text.byteCount : Int) ≤
      3 * budget + 2 * ((sectionWithin fileMarker budget files).included +
        (sectionWithin fileMarker budget files).excerpts) := by
  have paid := totalCharge_select_le fileMarker files funded
  have lost := totalCost_spare_le fileMarker (select fileMarker budget files)
  rw [sectionWithin_text, byteCount_write]
  simp only [sectionWithin]
  omega

/-- Where a header costs something, a section that shows a file is never free. -/
theorem tokens_eq_zero_iff (marked : 3 ≤ fileMarker.byteCount) (budget : Int)
    (files : List File) :
    (sectionWithin fileMarker budget files).tokens = 0 ↔
      (sectionWithin fileMarker budget files).included = 0 := by
  change (sectionWithin fileMarker budget files).text.tokens = 0 ↔
    (select fileMarker budget files).length = 0
  rw [sectionWithin_text, Text.tokens_eq_of_byteCount (byteCount_write fileMarker _)]
  cases select fileMarker budget files with
  | nil => exact iff_of_true (by simp) rfl
  | cons file rest =>
    have costly := file.tokens_header_pos marked
    rw [totalCost_cons, File.charge]
    exact iff_of_false (by omega) (Nat.succ_ne_zero _)

/-- Where a header costs something, a spent budget keeps no file. -/
theorem sectionWithin_of_nonpos (files : List File) (marked : 3 ≤ fileMarker.byteCount)
    (spent : budget ≤ 0) : sectionWithin fileMarker budget files = { total := files.length } := by
  have none : select fileMarker budget files = [] := by
    cases files with
    | nil => rfl
    | cons file rest =>
      have costly := file.tokens_header_pos marked
      simp only [select]
      exact if_neg (by omega)
  simp only [sectionWithin, none]
  rfl

/-- A budget that pays for all files keeps every excerpt; a file without one is passed over. -/
theorem select_eq_filter {files : List File}
    (ample : (totalCost (File.charge fileMarker) files : Int) ≤ budget) :
    select fileMarker budget files = files.filter fun file => !file.excerpts.isEmpty := by
  induction files generalizing budget with
  | nil => rfl
  | cons file rest ih =>
    rw [totalCost_cons, File.charge] at ample
    simp only [select]
    rw [if_pos (by omega), takeWithin_eq_self (by omega), List.filter_cons]
    by_cases empty : file.excerpts = []
    · rw [empty]
      exact ih (by omega)
    · have full : file.excerpts.isEmpty = false := List.isEmpty_eq_false_iff.mpr empty
      have remaining : (totalCost (File.charge fileMarker) rest : Int) ≤
          budget - (file.header fileMarker).tokens -
            totalCost (Excerpt.cost file.maxRow) file.excerpts := by omega
      rw [full, if_neg Bool.false_ne_true, ih remaining]
      rfl

end Related

end NextEdit
