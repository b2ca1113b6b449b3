import NextEdit.Proofs.Prompt.Assembly

/-! Priorities among the parts of a prompt. The mandatory text depends on the cursor context alone,
whatever else a request says and whatever the budget is; the history depends on the changes and the
budget besides, but never on related files. -/
namespace NextEdit

namespace Request

/-- Two requests that show the same place: the file, the excerpt, what may be edited, the cursor and
the windows. -/
structure SameCursor (first second : Request) : Prop where
  path : first.path = second.path
  excerpt : first.excerpt = second.excerpt
  editable : first.editable = second.editable
  cursor : first.cursor = second.cursor
  windows : first.windows = second.windows

theorem SameCursor.region_eq {first second : Request} (same : first.SameCursor second)
    (format : Format) : first.region format = second.region format := by
  obtain ⟨_, excerpt, editable, cursor, windows⟩ := same
  simp only [Request.region, Request.regionIn, excerpt, editable, cursor, windows]

/-- The history is filled before any related file is looked at. -/
theorem emittedHistory_eq {first second : Request} (path : first.path = second.path)
    (changes : first.changes = second.changes) (format : Format) (maxTokens : Int)
    (region : Region) :
    first.emittedHistory format maxTokens region =
      second.emittedHistory format maxTokens region := by
  rw [emittedHistory, historySection, path, changes, emittedHistory, historySection]

end Request

/-- A prompt whose context sections stand between an opening and a closing text, and which is those
two alone once they use up the budget. -/
structure Prompt.Framed (prompt : Prompt) (maxTokens : Int)
    (opening related history closing : Text) : Prop where
  text : prompt.text = opening ++ related ++ history ++ closing
  spent : maxTokens ≤ prompt.accounting.cursorTokens →
    prompt.text = opening ++ closing ∧ prompt.accounting.changesIncluded = 0 ∧
      prompt.accounting.filesIncluded = 0 ∧ prompt.accounting.excerptsIncluded = 0

namespace Request

theorem framed_promptAround (request : Request) (format : Format) (maxTokens : Int)
    (region : Region) :
    (request.promptAround format maxTokens region).Framed maxTokens (region.opening format)
      (format.setOff (request.emittedRelated format maxTokens region).text)
      (format.setOff (request.emittedHistory format maxTokens region).text)
      (region.closing request.path format) := by
  refine ⟨request.promptAround_text format maxTokens region, ?_⟩
  intro spent
  obtain ⟨history, related⟩ := request.emitted_of_spent format maxTokens region spent
  refine ⟨?_, congrArg Section.included history, congrArg Section.included related,
    congrArg Section.excerpts related⟩
  rw [promptAround_text, history, related, Format.setOff_nil, List.append_nil, List.append_nil]

/-- Requests with the same cursor context fail with the same error or succeed around the same
mandatory text, whatever else they say and whatever their budgets are. The history is the same where
the changes and the budgets are, whatever the related files. -/
theorem cursor_context_has_priority {first second : Request} (same : first.SameCursor second)
    (format : Format) (firstBudget secondBudget : Int) :
    (∃ error, first.prompt format firstBudget = .error error ∧
      second.prompt format secondBudget = .error error) ∨
    ∃ region firstPrompt secondPrompt,
      first.region format = .ok region ∧ second.region format = .ok region ∧
      first.prompt format firstBudget = .ok firstPrompt ∧
      second.prompt format secondBudget = .ok secondPrompt ∧
      firstPrompt.Framed firstBudget (region.opening format)
        (format.setOff (first.emittedRelated format firstBudget region).text)
        (format.setOff (first.emittedHistory format firstBudget region).text)
        (region.closing first.path format) ∧
      secondPrompt.Framed secondBudget (region.opening format)
        (format.setOff (second.emittedRelated format secondBudget region).text)
        (format.setOff (second.emittedHistory format secondBudget region).text)
        (region.closing first.path format) ∧
      (first.changes = second.changes → firstBudget = secondBudget →
        first.emittedHistory format firstBudget region =
          second.emittedHistory format secondBudget region) := by
  have regions := same.region_eq format
  cases found : first.region format with
  | error error =>
    rw [found] at regions
    exact .inl ⟨error, prompt_of_region_error found, prompt_of_region_error regions.symm⟩
  | ok region =>
    rw [found] at regions
    refine .inr ⟨region, _, _, rfl, regions.symm, prompt_of_region found,
      prompt_of_region regions.symm, first.framed_promptAround format firstBudget region, ?_, ?_⟩
    · rw [same.path]
      exact second.framed_promptAround format secondBudget region
    · rintro changes rfl
      exact emittedHistory_eq same.path changes format firstBudget region

/-- The sample with its cursor behind the end of the excerpt. -/
def misplaced : Request :=
  { sample with cursor := 40 }

/-- Without changes and related files, and with a budget below its mandatory text, the sample keeps that
text and nothing else. Without related files alone it keeps its history. With its cursor misplaced it
fails, and so it does without the changes. -/
theorem cursor_context_has_priority_over_sample :
    (∃ (region : Region) (full bare : NextEdit.Prompt) (context : Text),
      sample.prompt .seedCoder 59 = .ok full ∧
      Request.prompt { sample with changes := [], relatedFiles := [] } .seedCoder 10 = .ok bare ∧
      full.text = region.opening .seedCoder ++ context ++ region.closing sample.path .seedCoder ∧
      bare.text = region.opening .seedCoder ++ region.closing sample.path .seedCoder) ∧
    (Request.emittedHistory { sample with relatedFiles := [] } .seedCoder 59 sampleRegion =
        sample.emittedHistory .seedCoder 59 sampleRegion ∧
      (sample.emittedHistory .seedCoder 59 sampleRegion).included = 1) ∧
    ∃ error, misplaced.prompt .seedCoder 59 = .error error ∧
      Request.prompt { misplaced with changes := [] } .seedCoder 10 = .error error := by
  have cut {region : Region} (found : sample.region .seedCoder = .ok region) :
      region = sampleRegion := by
    rw [region_sample .seedCoder] at found
    exact (Except.ok.inj found).symm
  have succeeds {error : RangeError} {budget : Int} :
      sample.prompt .seedCoder budget ≠ .error error := by
    rw [prompt_of_region (region_sample .seedCoder)]
    exact nofun
  refine ⟨?_, ?_, ?_⟩
  · have same : sample.SameCursor { sample with changes := [], relatedFiles := [] } :=
      ⟨rfl, rfl, rfl, rfl, rfl⟩
    rcases cursor_context_has_priority same .seedCoder 59 10 with
      ⟨error, fails, _⟩ | ⟨region, full, bare, found, resolves, fullOk, bareOk, framed, bareFramed, _⟩
    · exact absurd fails succeeds
    · have bareIs : bare = Request.promptAround { sample with changes := [], relatedFiles := [] }
          .seedCoder 10 region := by
        rw [prompt_of_region resolves] at bareOk
        exact (Except.ok.inj bareOk).symm
      have spent : (10 : Int) ≤ bare.accounting.cursorTokens := by
        rw [bareIs, cut found]
        decide +kernel
      obtain ⟨text, _⟩ := bareFramed.spent spent
      have around := framed.text
      rw [List.append_assoc (region.opening .seedCoder)] at around
      exact ⟨region, full, bare, _, fullOk, bareOk, around, text⟩
  · have same : Request.SameCursor { sample with relatedFiles := [] } sample :=
      ⟨rfl, rfl, rfl, rfl, rfl⟩
    rcases cursor_context_has_priority same .seedCoder 59 59 with
      ⟨error, _, fails⟩ | ⟨region, _, _, _, found, _, _, _, _, history⟩
    · exact absurd fails succeeds
    · refine ⟨cut found ▸ history rfl rfl, ?_⟩
      decide +kernel
  · have same : misplaced.SameCursor { misplaced with changes := [] } :=
      ⟨rfl, rfl, rfl, rfl, rfl⟩
    rcases cursor_context_has_priority same .seedCoder 59 10 with fails | ⟨_, _, _, found, _⟩
    · exact fails
    · cases found

end Request

end NextEdit
