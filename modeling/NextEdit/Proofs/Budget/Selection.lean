import Mathlib.Algebra.Ring.Nat
import Mathlib.Data.List.Forall2
import Mathlib.Data.Nat.Find
import NextEdit.Proofs.Budget.Related

/-! Which excerpts of related files a budget pays, as one count for each file. The counts are a
greedy choice, told by what is spent so far: every file gets the most of its leading excerpts that
the budget pays on top of that. The section is what the files cut to their counts write without a
budget, and a larger budget changes the counts in favour of the first file that it changes. -/
namespace NextEdit

section Longest

variable {α : Type} {cost : α → Nat} {budget : Int}

/-- The scan stops at the largest number of leading items that the budget pays together. -/
theorem length_takeWithin {items : List α} {affordable : Nat → Prop} [DecidablePred affordable]
    (paid : ∀ count, affordable count ↔ (totalCost cost (items.take count) : Int) ≤ budget) :
    (takeWithin cost budget items).length = Nat.findGreatest affordable items.length := by
  apply Nat.le_antisymm
  · rcases length_takeWithin_eq_zero_or_paid budget items with nothing | within
    · rw [nothing]
      exact Nat.zero_le _
    · apply Nat.le_findGreatest (takeWithin_isPrefix cost budget items).length_le
      exact (paid _).mpr within
  · by_cases nothing : Nat.findGreatest affordable items.length = 0
    · rw [nothing]
      exact Nat.zero_le _
    · apply le_length_takeWithin (Nat.findGreatest_le _)
      rw [← paid]
      exact Nat.findGreatest_of_ne_zero rfl nothing

end Longest

namespace Related

section Choice

variable (fileMarker : Text) (budget : Int)

/-- What a file is charged for so many of its leading excerpts. -/
def File.price (file : File) (count : Nat) : Nat :=
  (file.header fileMarker).tokens +
    totalCost (Excerpt.cost file.maxRow) (file.excerpts.take count)

/-- The most leading excerpts of a file that a budget pays, with the header and on top of what is
spent. -/
def File.affordable (spent : Nat) (file : File) : Nat :=
  Nat.findGreatest (fun count => (spent + file.price fileMarker count : Int) ≤ budget)
    file.excerpts.length

/-- The greedy choice, as one count for each file. A header beyond the budget leaves nothing to its
file and to all later ones; a file that gets nothing costs nothing. -/
def greedyCounts : Nat → List File → List Nat
  | _, [] => []
  | spent, file :: rest =>
    if (spent + (file.header fileMarker).tokens : Int) ≤ budget then
      let count := file.affordable fileMarker budget spent
      count :: greedyCounts (if count = 0 then spent else spent + file.price fileMarker count) rest
    else List.replicate (file :: rest).length 0

end Choice

/-- The files with a count above zero, each cut to so many leading excerpts. -/
def cut : List File → List Nat → List File
  | file :: files, count :: counts =>
    if count = 0 then cut files counts
    else { file with excerpts := file.excerpts.take count } :: cut files counts
  | _, _ => []

/-- One count for each file, and no more than it has excerpts. -/
def Counted (files : List File) (counts : List Nat) : Prop :=
  List.Forall₂ (fun file count => count ≤ file.excerpts.length) files counts

theorem cut_replicate_zero (files : List File) (length : Nat) :
    cut files (List.replicate length 0) = [] := by
  induction files generalizing length with
  | nil => cases length <;> rfl
  | cons file rest ih =>
    cases length with
    | zero => rfl
    | succ length =>
      rw [List.replicate_succ, cut, if_pos rfl]
      exact ih length

theorem Counted.zero (files : List File) : Counted files (List.replicate files.length 0) := by
  induction files with
  | nil => exact .nil
  | cons file rest ih => exact .cons (Nat.zero_le _) ih

theorem Counted.length_excerpts_cut (counted : Counted files counts) :
    ((cut files counts).flatMap (·.excerpts)).length = counts.sum := by
  induction counted with
  | nil => rfl
  | @cons file count files counts inside _ ih =>
    rw [List.sum_cons, cut]
    split
    · rename_i nothing
      rw [ih, nothing, Nat.zero_add]
    · rw [List.flatMap_cons, List.length_append, ih, List.length_take, Nat.min_eq_left inside]

theorem Counted.sum_le (counted : Counted files counts) :
    counts.sum ≤ (files.flatMap (·.excerpts)).length := by
  induction counted with
  | nil => exact Nat.le_refl _
  | cons inside _ ih =>
    rw [List.sum_cons, List.flatMap_cons, List.length_append]
    exact Nat.add_le_add inside ih

theorem length_cut_le (files : List File) (counts : List Nat) :
    (cut files counts).length ≤ files.length := by
  induction files generalizing counts with
  | nil => exact Nat.le_refl _
  | cons file rest ih =>
    cases counts with
    | nil => exact Nat.zero_le _
    | cons count counts =>
      rw [cut]
      split
      · exact Nat.le_succ_of_le (ih counts)
      · exact Nat.succ_le_succ (ih counts)

/-- A file is shown for the sake of an excerpt. -/
theorem length_cut_le_sum (files : List File) (counts : List Nat) :
    (cut files counts).length ≤ counts.sum := by
  induction files generalizing counts with
  | nil => exact Nat.zero_le _
  | cons file rest ih =>
    cases counts with
    | nil => exact Nat.le_refl _
    | cons count counts =>
      have later := ih counts
      rw [List.sum_cons, cut]
      split
      · omega
      · rw [List.length_cons]
        omega

variable (fileMarker : Text)

theorem File.affordable_le (budget : Int) (spent : Nat) (file : File) :
    file.affordable fileMarker budget spent ≤ file.excerpts.length :=
  Nat.findGreatest_le _

theorem counted_greedyCounts (budget : Int) (spent : Nat) (files : List File) :
    Counted files (greedyCounts fileMarker budget spent files) := by
  induction files generalizing spent with
  | nil => exact .nil
  | cons file rest ih =>
    rw [greedyCounts]
    split
    · exact .cons (file.affordable_le fileMarker budget spent) (ih _)
    · exact Counted.zero (file :: rest)

/-- Behind a header that fits, the scan through the excerpts takes what the budget affords. -/
theorem takeWithin_excerpts (budget : Int) (spent : Nat) (file : File) :
    takeWithin (Excerpt.cost file.maxRow) (budget - spent - (file.header fileMarker).tokens)
      file.excerpts = file.excerpts.take (file.affordable fileMarker budget spent) := by
  have leading := takeWithin_isPrefix (Excerpt.cost file.maxRow)
    (budget - spent - (file.header fileMarker).tokens) file.excerpts
  have length : (takeWithin (Excerpt.cost file.maxRow)
      (budget - spent - (file.header fileMarker).tokens) file.excerpts).length =
      file.affordable fileMarker budget spent := by
    apply length_takeWithin
    intro count
    rw [File.price]
    omega
  rw [List.prefix_iff_eq_take.mp leading, length]

/-- The scan keeps the files cut to the greedy counts, whatever was spent before. -/
theorem select_eq_cut (budget : Int) (spent : Nat) (files : List File) :
    select fileMarker (budget - spent) files =
      cut files (greedyCounts fileMarker budget spent files) := by
  induction files generalizing spent with
  | nil => rfl
  | cons file rest ih =>
    rw [greedyCounts]
    simp only [select]
    by_cases room : (spent + (file.header fileMarker).tokens : Int) ≤ budget
    · rw [if_pos (by omega), if_pos room, takeWithin_excerpts, cut]
      by_cases nothing : file.affordable fileMarker budget spent = 0
      -- A file that gets nothing leaves no trace, neither in the files nor in what is spent.
      · rw [nothing]
        exact ih spent
      · have inside := file.affordable_le fileMarker budget spent
        have shown : (file.excerpts.take (file.affordable fileMarker budget spent)).isEmpty =
            false := by
          rw [List.isEmpty_eq_false_iff, ← List.length_pos_iff, List.length_take]
          omega
        have remaining : budget - spent - (file.header fileMarker).tokens -
            totalCost (Excerpt.cost file.maxRow)
              (file.excerpts.take (file.affordable fileMarker budget spent)) =
            budget - (spent + file.price fileMarker (file.affordable fileMarker budget spent) :
              Nat) := by
          rw [File.price]
          omega
        rw [shown, if_neg Bool.false_ne_true, if_neg nothing, if_neg nothing, remaining, ih]
    · rw [if_neg (by omega), if_neg room, cut_replicate_zero]

theorem select_eq_cut_greedyCounts (budget : Int) (files : List File) :
    select fileMarker budget files = cut files (greedyCounts fileMarker budget 0 files) := by
  have start := select_eq_cut fileMarker budget 0 files
  rwa [Int.ofNat_zero, Int.sub_zero] at start

theorem length_excerpts_select (budget : Int) (files : List File) :
    ((select fileMarker budget files).flatMap (·.excerpts)).length =
      (greedyCounts fileMarker budget 0 files).sum := by
  rw [select_eq_cut_greedyCounts]
  exact (counted_greedyCounts fileMarker budget 0 files).length_excerpts_cut

theorem length_select_le (budget : Int) (files : List File) :
    (select fileMarker budget files).length ≤ files.length := by
  rw [select_eq_cut_greedyCounts]
  exact length_cut_le _ _

theorem length_select_le_excerpts (budget : Int) (files : List File) :
    (select fileMarker budget files).length ≤
      ((select fileMarker budget files).flatMap (·.excerpts)).length := by
  rw [length_excerpts_select, select_eq_cut_greedyCounts]
  exact length_cut_le_sum _ _

theorem length_excerpts_select_le (budget : Int) (files : List File) :
    ((select fileMarker budget files).flatMap (·.excerpts)).length ≤
      (files.flatMap (·.excerpts)).length := by
  rw [length_excerpts_select]
  exact (counted_greedyCounts fileMarker budget 0 files).sum_le

/-- A section within a budget is what its greedy choice writes without one, and counts the files
and the excerpts of that choice. -/
theorem sectionWithin_eq_greedy_choice (budget : Int) (files : List File) :
    let counts := greedyCounts fileMarker budget 0 files
    sectionWithin fileMarker budget files =
      { text := (write fileMarker (cut files counts)).1
        included := (cut files counts).length
        total := files.length
        excerpts := counts.sum } := by
  intro counts
  have chosen : select fileMarker budget files = cut files counts :=
    select_eq_cut_greedyCounts fileMarker budget files
  have excerpts : _ = counts.sum := length_excerpts_select fileMarker budget files
  rw [← excerpts, ← chosen, ← sectionWithin_text]
  rfl

theorem affordable_le_affordable (more : less ≤ budget) (spent : Nat) (file : File) :
    file.affordable fileMarker less spent ≤ file.affordable fileMarker budget spent := by
  apply Nat.findGreatest_mono_left
  intro count paid
  exact Int.le_trans paid more

theorem replicate_zero_least (counts : List Nat) :
    List.replicate counts.length 0 = counts ∨
      List.Lex (· < ·) (List.replicate counts.length 0) counts := by
  induction counts with
  | nil => exact .inl rfl
  | cons count rest ih =>
    rw [List.length_cons, List.replicate_succ]
    rcases Nat.eq_zero_or_pos count with rfl | positive
    · exact ih.imp (congrArg (0 :: ·)) .cons
    · exact .inr (.rel positive)

/-- Two scans that have spent the same make the same choice up to the first file of which the larger
budget affords more. -/
theorem greedyCounts_grow (more : less ≤ budget) (spent : Nat) (files : List File) :
    greedyCounts fileMarker less spent files = greedyCounts fileMarker budget spent files ∨
      List.Lex (· < ·) (greedyCounts fileMarker less spent files)
        (greedyCounts fileMarker budget spent files) := by
  induction files generalizing spent with
  | nil => exact .inl rfl
  | cons file rest ih =>
    by_cases room : (spent + (file.header fileMarker).tokens : Int) ≤ less
    · rw [greedyCounts, if_pos room, greedyCounts, if_pos (Int.le_trans room more)]
      rcases Nat.lt_or_eq_of_le (affordable_le_affordable fileMarker more spent file) with
        fewer | same
      · exact .inr (.rel fewer)
      · rw [same]
        exact (ih _).imp (congrArg (_ :: ·)) .cons
    -- The smaller budget ends here; whatever the larger one still shows is no less than nothing.
    · have length := (counted_greedyCounts fileMarker budget spent (file :: rest)).length_eq
      rw [greedyCounts.eq_2 _ less, if_neg room, length]
      exact replicate_zero_least _

/-- A larger budget never hurts a file of higher priority. The counts of what a section shows of
each file grow in lexicographic order: at the first file where they differ, the larger budget shows
more. -/
theorem counts_grow_with_budget (more : less ≤ budget) (files : List File) :
    let counts (available : Int) := greedyCounts fileMarker available 0 files
    (∀ available, Counted files (counts available) ∧
      select fileMarker available files = cut files (counts available) ∧
      (sectionWithin fileMarker available files).text =
        (write fileMarker (cut files (counts available))).1 ∧
      (sectionWithin fileMarker available files).included =
        (cut files (counts available)).length ∧
      (sectionWithin fileMarker available files).excerpts = (counts available).sum) ∧
    (counts less = counts budget ∨ List.Lex (· < ·) (counts less) (counts budget)) := by
  refine ⟨?_, greedyCounts_grow fileMarker more 0 files⟩
  intro available
  have chosen := select_eq_cut_greedyCounts fileMarker available files
  refine ⟨counted_greedyCounts fileMarker available 0 files, chosen, ?_,
    congrArg List.length chosen, length_excerpts_select fileMarker available files⟩
  rw [sectionWithin_text, chosen]

/-- A file of thirteen tokens in front of one of six. -/
def longFileFirst : List File :=
  [{ path := "a".toList
     maxRow := 1
     excerpts := [{ rows := { start := 2, stop := 5 }, text := "area = width * height + 1000\n".toList }]
     inOpenSource := false },
   { path := "b".toList
     maxRow := 1
     excerpts := [{ rows := { start := 2, stop := 5 }, text := "b = 2\n".toList }]
     inOpenSource := false }]

/-- The larger budget admits the first file and pushes out the second. -/
theorem counts_grow_with_budget_at_long_file :
    greedyCounts Marker.fileSeparator 10 0 longFileFirst = [0, 1] ∧
      greedyCounts Marker.fileSeparator 13 0 longFileFirst = [1, 0] ∧
      (sectionWithin Marker.fileSeparator 13 longFileFirst).excerpts = 1 ∧
      (greedyCounts Marker.fileSeparator 10 0 longFileFirst =
          greedyCounts Marker.fileSeparator 13 0 longFileFirst ∨
        List.Lex (· < ·) (greedyCounts Marker.fileSeparator 10 0 longFileFirst)
          (greedyCounts Marker.fileSeparator 13 0 longFileFirst)) := by
  have larger : (10 : Int) ≤ 13 := by decide
  obtain ⟨shown, grow⟩ := counts_grow_with_budget Marker.fileSeparator larger longFileFirst
  obtain ⟨_, _, _, _, excerpts⟩ := shown 13
  have second : greedyCounts Marker.fileSeparator 13 0 longFileFirst = [1, 0] := by
    decide +kernel
  refine ⟨?_, second, ?_, grow⟩
  · decide +kernel
  · exact excerpts.trans (congrArg List.sum second)

end Related

end NextEdit
