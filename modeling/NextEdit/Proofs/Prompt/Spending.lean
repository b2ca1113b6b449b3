import NextEdit.Proofs.Prompt.Assembly

/-! How the budget is spent. A prompt exceeds it, or an oversized mandatory text, by rounding alone
and by the few bytes that nothing is charged for; and a budget that pays for the unbudgeted context
gets it whole. -/
namespace NextEdit

namespace Request

variable {request : Request} {format : Format} {maxTokens : Int}

/-- Bytes of a prompt: the mandatory text, the two context sections and what sets them off. -/
theorem byteCount_promptAround_le (request : Request) (format : Format) (maxTokens : Int)
    (region : Region) :
    (request.promptAround format maxTokens region).text.byteCount ≤
      3 * region.tokens format request.path +
        (request.emittedRelated format maxTokens region).text.byteCount +
        (request.emittedHistory format maxTokens region).text.byteCount +
        (if format = .seedCoder then 34 else 2) := by
  have mandatory := region.byteCount_mandatory_le format request.path
  have related := format.byteCount_setOff_le (request.emittedRelated format maxTokens region).text
  have history := format.byteCount_setOff_le (request.emittedHistory format maxTokens region).text
  rw [promptAround_text]
  simp only [Text.byteCount_append]
  by_cases seed : format = .seedCoder
  · rw [if_pos seed] at mandatory related history ⊢
    omega
  · rw [if_neg seed] at mandatory related history ⊢
    omega

theorem contextBudget_nonneg (maxTokens : Int) (cursorTokens : Nat) :
    0 ≤ contextBudget maxTokens cursorTokens := by
  rw [contextBudget]
  omega

/-- The two context sections exceed the context budget by rounding alone. A history within the
budget hands on what it measures, so that only its own remainder and the pieces of the related files
count; a history beyond it leaves nothing to the related files, and only its own pieces count. -/
theorem byteCount_context_le (request : Request) (format : Format) (maxTokens : Int)
    (region : Region) :
    ((request.emittedRelated format maxTokens region).text.byteCount +
        (request.emittedHistory format maxTokens region).text.byteCount : Int) ≤
      3 * contextBudget maxTokens (region.tokens format request.path) + 2 +
        2 * max (request.emittedHistory format maxTokens region).included
          ((request.emittedRelated format maxTokens region).included +
            (request.emittedRelated format maxTokens region).excerpts) := by
  have funded := contextBudget_nonneg maxTokens (region.tokens format request.path)
  have history := History.byteCount_sectionWithin_le format.fileMarker format.historyName funded
    request.changes
  change ((request.emittedHistory format maxTokens region).text.byteCount : Int) ≤
    3 * _ + 2 * ((request.emittedHistory format maxTokens region).included + 1) at history
  have handedOn : (request.emittedHistory format maxTokens region).text.byteCount ≤
      3 * (request.emittedHistory format maxTokens region).tokens + 2 :=
    Text.byteCount_le_tokens _
  rw [emittedRelated, relatedSection]
  by_cases overrun : contextBudget maxTokens (region.tokens format request.path) ≤
      (request.emittedHistory format maxTokens region).tokens
  · rw [Related.sectionWithin_of_nonpos _ format.fileMarker_costly (by omega)]
    simp only [Text.byteCount_nil]
    omega
  · have related := Related.byteCount_sectionWithin_le format.fileMarker request.relatedFiles
      (Int.sub_nonneg_of_le (Int.le_of_lt (Int.not_le.mp overrun)))
    rw [Int.max_eq_left (by omega)]
    omega

/-- A prompt exceeds its budget, or its mandatory text where that is larger, by two bytes for each
piece of one of its sections and by four bytes more, thirty-six in the seed-coder format. -/
theorem totalTokens_le (succeeds : request.prompt format maxTokens = .ok assembled) :
    (assembled.accounting.totalTokens : Int) ≤
      max maxTokens assembled.accounting.cursorTokens +
        ((if format = .seedCoder then 36 else 4) +
          2 * max assembled.accounting.changesIncluded
            (assembled.accounting.filesIncluded + assembled.accounting.excerptsIncluded)) / 3 := by
  obtain ⟨region, _, rfl⟩ := exists_region_of_prompt succeeds
  have whole := Text.mul_tokens_le (request.promptAround format maxTokens region).text
  have size := byteCount_promptAround_le request format maxTokens region
  have context := byteCount_context_le request format maxTokens region
  rw [contextBudget] at context
  change ((request.promptAround format maxTokens region).text.tokens : Int) ≤
    max maxTokens (region.tokens format request.path) + (_ +
      2 * max (request.emittedHistory format maxTokens region).included
        ((request.emittedRelated format maxTokens region).included +
          (request.emittedRelated format maxTokens region).excerpts)) / 3
  by_cases seed : format = .seedCoder
  · rw [if_pos seed] at size ⊢
    omega
  · rw [if_neg seed] at size ⊢
    omega

/-- The bound is attained: thirteen tokens beyond the budget. -/
theorem totalTokens_le_attained :
    ∃ assembled, sample.prompt .seedCoder 59 = .ok assembled ∧
      assembled.accounting.totalTokens = 59 + (36 + 2 * 2) / 3 ∧
      (assembled.accounting.totalTokens : Int) ≤
        max 59 (assembled.accounting.cursorTokens : Int) + (36 + 2 *
          max (assembled.accounting.changesIncluded : Int)
            (assembled.accounting.filesIncluded + assembled.accounting.excerptsIncluded)) / 3 := by
  have succeeds : sample.prompt .seedCoder 59 =
      .ok (sample.promptAround .seedCoder 59 sampleRegion) :=
    prompt_of_region (region_sample .seedCoder)
  have total : (sample.promptAround .seedCoder 59 sampleRegion).accounting.totalTokens = 72 := by
    decide +kernel
  have bound := totalTokens_le succeeds
  rw [if_pos rfl] at bound
  exact ⟨_, succeeds, total, bound⟩

/-- The history of a request without a budget. -/
def wholeHistory (request : Request) (format : Format) : Text :=
  History.whole format.fileMarker format.historyName request.changes

/-- The related files of a request without a budget. -/
def wholeRelated (request : Request) (format : Format) : Text :=
  (Related.write format.fileMarker request.relatedFiles).1

/-- The related files that have something to show. -/
def filesWithExcerpts (request : Request) : List Related.File :=
  request.relatedFiles.filter fun file => !file.excerpts.isEmpty

theorem flatMap_excerpts_filesWithExcerpts (request : Request) :
    request.filesWithExcerpts.flatMap (·.excerpts) = request.relatedFiles.flatMap (·.excerpts) := by
  rw [filesWithExcerpts]
  induction request.relatedFiles with
  | nil => rfl
  | cons file rest ih =>
    rw [List.filter_cons, List.flatMap_cons, ← ih]
    by_cases empty : file.excerpts = []
    · rw [empty]
      rfl
    · have shown : (!file.excerpts.isEmpty) = true := by simpa using empty
      rw [if_pos shown, List.flatMap_cons]

theorem emittedHistory_of_ample (region : Region)
    (ample : ((request.wholeHistory format).tokens : Int) ≤
      contextBudget maxTokens (region.tokens format request.path)) :
    request.emittedHistory format maxTokens region =
      { text := request.wholeHistory format
        included := request.changes.length
        total := request.changes.length } := by
  have kept := History.kept_eq_self format.fileMarker format.historyName ample
  simp only [emittedHistory, historySection, History.sectionWithin, kept]
  rfl

theorem emittedRelated_of_ample (region : Region)
    (ample : ((request.wholeHistory format).tokens + (request.wholeRelated format).tokens : Int) ≤
      contextBudget maxTokens (region.tokens format request.path)) :
    request.emittedRelated format maxTokens region =
      { text := (Related.write format.fileMarker request.filesWithExcerpts).1
        included := request.filesWithExcerpts.length
        total := request.relatedFiles.length
        excerpts := (request.relatedFiles.flatMap (·.excerpts)).length } := by
  have measured : (request.emittedHistory format maxTokens region).tokens =
      (request.wholeHistory format).tokens := by
    rw [emittedHistory_of_ample region (by omega)]
    rfl
  have charged : 3 * totalCost (Related.File.charge format.fileMarker) request.relatedFiles ≤
      3 * (request.wholeRelated format).tokens + 2 :=
    Nat.le_trans (Related.mul_totalCharge_le _ _) (Text.byteCount_le_tokens _)
  have selected : Related.select format.fileMarker
      (max (contextBudget maxTokens (region.tokens format request.path) -
        (request.emittedHistory format maxTokens region).tokens) 0) request.relatedFiles =
      request.filesWithExcerpts :=
    Related.select_eq_filter (by omega)
  rw [← flatMap_excerpts_filesWithExcerpts, emittedRelated, relatedSection, ← selected,
    ← Related.sectionWithin_text]
  rfl

/-- A budget that pays for the mandatory text and the unbudgeted context leaves out nothing but
files without an excerpt. -/
theorem prompt_of_ample_budget {region : Region}
    (resolves : request.region format = .ok region)
    (ample : (region.tokens format request.path + (request.wholeHistory format).tokens +
      (request.wholeRelated format).tokens : Int) ≤ maxTokens) :
    ∃ assembled, request.prompt format maxTokens = .ok assembled ∧
      assembled.text = region.opening format ++
        format.setOff (Related.write format.fileMarker request.filesWithExcerpts).1 ++
        format.setOff (request.wholeHistory format) ++ region.closing request.path format ∧
      assembled.accounting.cursorTokens = region.tokens format request.path ∧
      assembled.accounting.changesIncluded = request.changes.length ∧
      assembled.accounting.filesIncluded = request.filesWithExcerpts.length ∧
      assembled.accounting.excerptsIncluded =
        (request.relatedFiles.flatMap (·.excerpts)).length := by
  have left : contextBudget maxTokens (region.tokens format request.path) =
      maxTokens - region.tokens format request.path := by
    rw [contextBudget]
    omega
  have history : request.emittedHistory format maxTokens region = _ :=
    emittedHistory_of_ample region (by omega)
  have related : request.emittedRelated format maxTokens region = _ :=
    emittedRelated_of_ample region (by omega)
  refine ⟨_, prompt_of_region resolves, ?_, rfl, ?_, ?_, ?_⟩
  · rw [promptAround_text, history, related]
  · exact congrArg Section.included history
  · exact congrArg Section.included related
  · exact congrArg Section.excerpts related

/-- The least budget with this promise, which counts the header of the file without an excerpt. -/
theorem prompt_of_ample_budget_exactly :
    ∃ assembled, sample.prompt .prefill 79 = .ok assembled ∧
      assembled.text =
        "<|file_sep|>helper.py\nd = 44\n...\n".toList ++
          "<|file_sep|>edit history\n--- a/module.py\n+++ b/module.py\n-b\n+b = 2\n".toList ++
          "<|file_sep|>module.py\n<|fim_prefix|>a = 1\n<<<<<<< CURRENT\nb = ".toList ++
          "<|user_cursor|>2\n=======\n<|fim_suffix|>c = 3\n<|fim_middle|>".toList ∧
      assembled.accounting.changesIncluded = 1 ∧ assembled.accounting.filesIncluded = 1 ∧
      assembled.accounting.excerptsIncluded = 1 := by
  obtain ⟨assembled, succeeds, text, _, changes, files, excerpts⟩ :=
    prompt_of_ample_budget (region_sample .prefill) (show _ ≤ (79 : Int) by decide +kernel)
  exact ⟨assembled, succeeds, text.trans (by decide +kernel), changes, files, excerpts⟩

end Request

end NextEdit
