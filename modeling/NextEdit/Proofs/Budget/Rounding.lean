import NextEdit.Proofs.Budget.History
import NextEdit.Proofs.Budget.Related

/-! What a section measures against its budget. Pieces are charged one by one, each rounded down,
so that the charge stays within the budget; the section as a whole measures a token more for every
three bytes that its pieces lose to rounding. A piece below three bytes costs nothing, and any
number of such excerpts fits behind a header that does. -/
namespace NextEdit

/-- A section that is charged within its budget and measures more by what its pieces lose, two bytes
each at most. It keeps to the budget as long as they lose less than a token together. -/
structure Section.PaidWithin (part : Section) (budget : Int) (pieces charge lost : Nat) : Prop where
  charged : (charge : Int) ≤ budget
  measured : part.tokens = charge + lost / bytesPerToken
  lost_le : lost ≤ 2 * pieces
  kept : lost < bytesPerToken → (part.tokens : Int) ≤ budget

theorem Section.PaidWithin.of_byteCount {part : Section}
    (size : part.text.byteCount = 3 * charge + lost) (charged : (charge : Int) ≤ budget)
    (lost_le : lost ≤ 2 * pieces) : part.PaidWithin budget pieces charge lost := by
  have measured : part.tokens = charge + lost / bytesPerToken := Text.tokens_eq_of_byteCount size
  refine ⟨charged, measured, lost_le, ?_⟩
  intro little
  rw [measured, Nat.div_eq_of_lt little]
  exact charged

theorem History.paidWithin_sectionWithin (fileMarker name : Text) (funded : 0 ≤ budget)
    (changes : List Change) :
    let shown := sectionWithin fileMarker name budget changes
    let found := kept (header fileMarker name) budget changes
    shown.PaidWithin budget (shown.included + 1) (charge fileMarker name found)
      (spare fileMarker name found) := by
  intro shown found
  apply Section.PaidWithin.of_byteCount
  · rw [sectionWithin_text, byteCount_whole]
  · exact charge_kept_le fileMarker name funded changes
  · exact spare_le fileMarker name found

namespace Related

theorem paidWithin_sectionWithin (fileMarker : Text) (funded : 0 ≤ budget) (files : List File) :
    let shown := sectionWithin fileMarker budget files
    let found := select fileMarker budget files
    shown.PaidWithin budget (shown.included + shown.excerpts)
      (totalCost (File.charge fileMarker) found) (totalCost (File.spare fileMarker) found) := by
  intro shown found
  apply Section.PaidWithin.of_byteCount
  · rw [sectionWithin_text, byteCount_write]
  · exact totalCharge_select_le fileMarker files funded
  · exact totalCost_spare_le fileMarker found

/-- An excerpt of one letter, whose two bytes are charged nothing. -/
def letterExcerpt : Excerpt where
  rows := { start := 3, stop := 4 }
  text := "x\n".toList

/-- A file of so many excerpts that are charged nothing. -/
def letters (path : Text) (count : Nat) : File where
  path
  maxRow := 4
  excerpts := List.replicate count letterExcerpt
  inOpenSource := false

theorem charge_letters (fileMarker path : Text) (count : Nat) :
    (letters path count).charge fileMarker = (fileMarker ++ path ++ ['\n']).tokens := by
  have free : Excerpt.cost 4 letterExcerpt = 0 := by decide
  have body : totalCost (Excerpt.cost 4) (List.replicate count letterExcerpt) = 0 := by
    rw [totalCost_replicate, free, Nat.mul_zero]
  change (fileMarker ++ path ++ ['\n']).tokens + totalCost (Excerpt.cost 4) _ = _
  rw [letters, body, Nat.add_zero]

theorem two_mul_le_spare_letters (fileMarker path : Text) (count : Nat) :
    2 * count ≤ (letters path count).spare fileMarker := by
  have whole : (letterExcerpt.block 4).spare = 2 := by decide
  have body : totalCost (fun excerpt => (Excerpt.block 4 excerpt).spare)
      (List.replicate count letterExcerpt) = count * 2 := by
    rw [totalCost_replicate, whole]
  change 2 * count ≤ _ + totalCost (fun excerpt => (Excerpt.block 4 excerpt).spare) _
  rw [letters, body]
  omega

/-- A budget that pays for a header admits sections of any size. -/
theorem exists_section_beyond {fileMarker path : Text}
    (paid : ((fileMarker ++ path ++ ['\n']).tokens : Int) ≤ budget) (bound : Nat) :
    ∃ count, bound < (sectionWithin fileMarker budget [letters path count]).tokens := by
  refine ⟨2 * bound + 2, ?_⟩
  have funded : 0 ≤ budget := Int.le_trans (Int.natCast_nonneg _) paid
  have selected : select fileMarker budget [letters path (2 * bound + 2)] =
      [letters path (2 * bound + 2)] := by
    apply select_eq_filter
    rw [totalCost_cons, totalCost_nil, charge_letters]
    exact paid
  have measured := (paidWithin_sectionWithin fileMarker funded
    [letters path (2 * bound + 2)]).measured
  rw [selected, totalCost_cons, totalCost_cons, totalCost_nil, totalCost_nil, bytesPerToken]
    at measured
  have lost := two_mul_le_spare_letters fileMarker path (2 * bound + 2)
  omega

end Related

/-- Both sections are charged within the budget they are given, the header included, and exceed it
by rounding alone. -/
theorem sections_paid_up_to_rounding (fileMarker name : Text) (funded : 0 ≤ budget)
    (changes : List Change) (files : List Related.File) :
    let history := History.sectionWithin fileMarker name budget changes
    let newest := History.kept (History.header fileMarker name) budget changes
    let related := Related.sectionWithin fileMarker budget files
    let selected := Related.select fileMarker budget files
    history.PaidWithin budget (history.included + 1) (History.charge fileMarker name newest)
        (History.spare fileMarker name newest) ∧
      related.PaidWithin budget (related.included + related.excerpts)
        (totalCost (Related.File.charge fileMarker) selected)
        (totalCost (Related.File.spare fileMarker) selected) :=
  ⟨History.paidWithin_sectionWithin fileMarker name funded changes,
    Related.paidWithin_sectionWithin fileMarker funded files⟩

/-- A change whose block loses two bytes to rounding, behind a header that loses one. -/
def renumbering : Change where
  path := "a.rs".toList
  oldPath := "a.rs".toList
  diff := "-1\n+12\n".toList
  predicted := false
  inOpenSource := false

/-- The history measures a token more than it is charged, the ten letters seven. -/
theorem sections_paid_up_to_rounding_at_renumbering :
    (0 : Int) ≤ 17 ∧
      (History.sectionWithin Marker.fileSeparator "edit history".toList 17 [renumbering]).tokens =
        17 + 3 / 3 ∧
      (Related.sectionWithin Marker.fileSeparator 17 [Related.letters "r".toList 10]).tokens =
        4 + 22 / 3 := by
  have funded : (0 : Int) ≤ 17 := by decide
  obtain ⟨history, related⟩ := sections_paid_up_to_rounding Marker.fileSeparator
    "edit history".toList funded [renumbering] [Related.letters "r".toList 10]
  refine ⟨funded, history.measured.trans ?_, related.measured.trans ?_⟩
  · decide +kernel
  · decide +kernel

/-- Neither section keeps to every budget as a whole: the history exceeds this one by a token, and
ten excerpts of one letter exceed by seven the budget that their header uses up. -/
theorem sections_exceed_budget :
    ¬ ((History.sectionWithin Marker.fileSeparator "edit history".toList 17
        [renumbering]).tokens : Int) ≤ 17 ∧
      ¬ ((Related.sectionWithin Marker.fileSeparator 4
        [Related.letters "r".toList 10]).tokens : Int) ≤ 4 := by
  decide +kernel

end NextEdit
