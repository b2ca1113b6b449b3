import NextEdit.Proofs.Budget.Selection
import NextEdit.Proofs.Prompt.Spending

/-! The account of a prompt. Its sections are rounded one by one and the prompt as a whole, so that
the total exceeds their sum by at most two tokens, and by nine to twelve in the seed-coder format,
which sets off its sections and has two markers that belong to none. What is included never exceeds
what the request has, and a section costs nothing exactly where it includes nothing. -/
namespace NextEdit

theorem Format.le_byteCount_setOff (format : Format) (text : Text) :
    text.byteCount ≤ (format.setOff text).byteCount := by
  cases format with
  | seedCoder =>
    simp only [setOff]
    split
    · rename_i empty
      rw [List.isEmpty_iff.mp empty]
    · rw [Text.byteCount_append]
      exact Nat.le_add_right _ _
  | _ => exact Nat.le_refl _

/-- The markers around the context sections of the seed-coder format are charged to no section. -/
theorem Region.le_byteCount_mandatory (region : Region) (format : Format) (path : Text) :
    3 * region.tokens format path + (if format = .seedCoder then 28 else 0) ≤
      (region.opening format).byteCount + (region.closing path format).byteCount := by
  cases format with
  | seedCoder =>
    have markers : Marker.seedPrefix.byteCount + Marker.seedMiddle.byteCount = 28 := by decide
    have suffixText := Text.mul_tokens_le region.seedSuffixSection
    have block := Text.mul_tokens_le (region.layout .seedCoder path)
    simp only [opening, closing, tokens, Text.byteCount_append, if_true]
    omega
  | _ => exact Nat.le_trans (Text.mul_tokens_le _) (Nat.le_of_eq (Nat.zero_add _).symm)

/-- The tokens of a prompt that belong to none of its sections. -/
def Accounting.unassigned (accounting : Accounting) : Int :=
  accounting.totalTokens -
    (accounting.cursorTokens + accounting.historyTokens + accounting.relatedTokens)

/-- An account that agrees with itself and with the request that it is about. -/
structure Accounting.Consistent (accounting : Accounting) (request : Request) (format : Format) :
    Prop where
  unassigned :
    if format = .seedCoder then 9 ≤ accounting.unassigned ∧ accounting.unassigned ≤ 12
    else 0 ≤ accounting.unassigned ∧ accounting.unassigned ≤ 2
  changesTotal : accounting.changesTotal = request.changes.length
  filesTotal : accounting.filesTotal = request.relatedFiles.length
  changes_le : accounting.changesIncluded ≤ accounting.changesTotal
  files_le : accounting.filesIncluded ≤ accounting.filesTotal
  files_le_excerpts : accounting.filesIncluded ≤ accounting.excerptsIncluded
  excerpts_le : accounting.excerptsIncluded ≤ (request.relatedFiles.flatMap (·.excerpts)).length
  history_free : accounting.historyTokens = 0 ↔ accounting.changesIncluded = 0
  related_free : accounting.relatedTokens = 0 ↔ accounting.filesIncluded = 0

namespace Request

variable (request : Request) (format : Format) (maxTokens : Int) (region : Region)

theorem le_byteCount_promptAround :
    3 * region.tokens format request.path +
        (request.emittedRelated format maxTokens region).text.byteCount +
        (request.emittedHistory format maxTokens region).text.byteCount +
        (if format = .seedCoder then 28 else 0) ≤
      (request.promptAround format maxTokens region).text.byteCount := by
  have mandatory := region.le_byteCount_mandatory format request.path
  have related := format.le_byteCount_setOff (request.emittedRelated format maxTokens region).text
  have history := format.le_byteCount_setOff (request.emittedHistory format maxTokens region).text
  rw [promptAround_text]
  simp only [Text.byteCount_append]
  omega

theorem unassigned_promptAround :
    let unassigned := (request.promptAround format maxTokens region).accounting.unassigned
    if format = .seedCoder then 9 ≤ unassigned ∧ unassigned ≤ 12
    else 0 ≤ unassigned ∧ unassigned ≤ 2 := by
  intro unassigned
  -- Every section loses at most two bytes to its own rounding, and so does the prompt.
  have sum : unassigned = (request.promptAround format maxTokens region).text.tokens -
      (region.tokens format request.path +
        (request.emittedHistory format maxTokens region).text.tokens +
        (request.emittedRelated format maxTokens region).text.tokens : Int) := rfl
  have least := request.le_byteCount_promptAround format maxTokens region
  have most := request.byteCount_promptAround_le format maxTokens region
  have whole := Text.mul_tokens_le (request.promptAround format maxTokens region).text
  have wholeLoss := Text.byteCount_le_tokens (request.promptAround format maxTokens region).text
  have history := Text.mul_tokens_le (request.emittedHistory format maxTokens region).text
  have historyLoss := Text.byteCount_le_tokens (request.emittedHistory format maxTokens region).text
  have related := Text.mul_tokens_le (request.emittedRelated format maxTokens region).text
  have relatedLoss := Text.byteCount_le_tokens (request.emittedRelated format maxTokens region).text
  by_cases seed : format = .seedCoder
  · rw [if_pos seed] at least most ⊢
    omega
  · rw [if_neg seed] at least most ⊢
    omega

variable {request format maxTokens}

/-- The account of a prompt measures the prompt and is consistent. -/
theorem accounting_consistent (succeeds : request.prompt format maxTokens = .ok assembled) :
    assembled.accounting.totalTokens = assembled.text.tokens ∧
      assembled.accounting.Consistent request format := by
  obtain ⟨region, _, rfl⟩ := exists_region_of_prompt succeeds
  refine ⟨rfl, ?_⟩
  exact {
    unassigned := request.unassigned_promptAround format maxTokens region
    changesTotal := rfl
    filesTotal := rfl
    changes_le := (History.kept_suffix _ _ _).length_le
    files_le := Related.length_select_le _ _ _
    files_le_excerpts := Related.length_select_le_excerpts _ _ _
    excerpts_le := Related.length_excerpts_select_le _ _ _
    history_free := History.tokens_eq_zero_iff _ _ format.fileMarker_costly _ _
    related_free := Related.tokens_eq_zero_iff format.fileMarker_costly _ _ }

/-- With both context sections shown, the sample leaves the most tokens unassigned that it can. -/
theorem accounting_consistent_of_sample :
    ∃ assembled, sample.prompt .seedCoder 59 = .ok assembled ∧
      assembled.accounting.changesIncluded = 1 ∧ assembled.accounting.filesIncluded = 1 ∧
      assembled.accounting.unassigned = 12 ∧
      assembled.accounting.Consistent sample .seedCoder := by
  have succeeds : sample.prompt .seedCoder 59 =
      .ok (sample.promptAround .seedCoder 59 sampleRegion) :=
    prompt_of_region (region_sample .seedCoder)
  obtain ⟨_, consistent⟩ := accounting_consistent succeeds
  refine ⟨_, succeeds, ?_, ?_, ?_, consistent⟩
  · decide +kernel
  · decide +kernel
  · decide +kernel

end Request

end NextEdit
