import NextEdit.Proofs.Budget.History
import NextEdit.Proofs.Budget.Related
import NextEdit.Prompt

/-! How a prompt is put together: the mandatory text around two context sections, of which the
history is filled from what the mandatory text leaves of the budget, and the related files from what
the history leaves of that. -/
namespace NextEdit

theorem Format.fileMarker_costly (format : Format) : 3 ≤ format.fileMarker.byteCount := by
  cases format <;> decide

theorem Format.setOff_nil (format : Format) : format.setOff [] = [] := by
  cases format <;> rfl

theorem Format.byteCount_setOff_le (format : Format) (text : Text) :
    (format.setOff text).byteCount ≤ text.byteCount + (if format = .seedCoder then 1 else 0) := by
  cases format with
  | seedCoder =>
    simp only [setOff]
    split
    · exact Nat.zero_le _
    · rw [Text.byteCount_append]
      exact Nat.le_refl _
  | _ => exact Nat.le_refl _

/-- The mandatory text is charged up to rounding; the seed-coder format rounds two sections and
does not charge its prefix and middle markers. -/
theorem Region.byteCount_mandatory_le (region : Region) (format : Format) (path : Text) :
    (region.opening format).byteCount + (region.closing path format).byteCount ≤
      3 * region.tokens format path + (if format = .seedCoder then 32 else 2) := by
  cases format with
  | seedCoder =>
    have markers : Marker.seedPrefix.byteCount + Marker.seedMiddle.byteCount = 28 := by decide
    have suffixText := Text.byteCount_le_tokens region.seedSuffixSection
    have block := Text.byteCount_le_tokens (region.layout .seedCoder path)
    simp only [opening, closing, tokens, Text.byteCount_append, if_true]
    omega
  | _ => exact Nat.le_trans (Nat.le_of_eq (Nat.zero_add _)) (Text.byteCount_le_tokens _)

namespace Request

variable (request : Request) (format : Format) (maxTokens : Int) (region : Region)

/-- The history section of the prompt around a region. -/
def emittedHistory : Section :=
  request.historySection format (contextBudget maxTokens (region.tokens format request.path))

/-- The related files section of the prompt around a region. -/
def emittedRelated : Section :=
  request.relatedSection format (contextBudget maxTokens (region.tokens format request.path))
    (request.emittedHistory format maxTokens region)

theorem promptAround_text :
    (request.promptAround format maxTokens region).text =
      region.opening format ++
        format.setOff (request.emittedRelated format maxTokens region).text ++
        format.setOff (request.emittedHistory format maxTokens region).text ++
        region.closing request.path format := rfl

variable {request format maxTokens region}

/-- A prompt succeeds exactly where its region does. -/
theorem prompt_of_region (resolves : request.region format = .ok region) :
    request.prompt format maxTokens = .ok (request.promptAround format maxTokens region) := by
  rw [prompt, resolves]
  rfl

theorem prompt_of_region_error (fails : request.region format = .error error) :
    request.prompt format maxTokens = .error error := by
  rw [prompt, fails]
  rfl

theorem exists_region_of_prompt (succeeds : request.prompt format maxTokens = .ok assembled) :
    ∃ region, request.region format = .ok region ∧
      assembled = request.promptAround format maxTokens region := by
  cases found : request.region format with
  | error error => simp [prompt_of_region_error found] at succeeds
  | ok region =>
    rw [prompt_of_region found] at succeeds
    exact ⟨region, rfl, (Except.ok.inj succeeds).symm⟩

theorem format_of_prompt (succeeds : request.prompt format maxTokens = .ok assembled) :
    assembled.format = format := by
  obtain ⟨region, _, rfl⟩ := exists_region_of_prompt succeeds
  rfl

variable (request format maxTokens region)

/-- A budget that the mandatory text uses up leaves nothing for context. -/
theorem emitted_of_spent (spent : maxTokens ≤ region.tokens format request.path) :
    request.emittedHistory format maxTokens region = { total := request.changes.length } ∧
      request.emittedRelated format maxTokens region =
        { total := request.relatedFiles.length } := by
  have left : contextBudget maxTokens (region.tokens format request.path) = 0 := by
    rw [contextBudget]
    omega
  have history : request.emittedHistory format maxTokens region =
      { total := request.changes.length } := by
    rw [emittedHistory, historySection, left]
    exact History.sectionWithin_of_nonpos _ _ (Int.le_refl 0) _
  refine ⟨history, ?_⟩
  rw [emittedRelated, history, relatedSection, left]
  exact Related.sectionWithin_of_nonpos _ format.fileMarker_costly (by omega)

/-- A request with one change, a related file that has nothing to show and one that has. In the
seed-coder format each piece of its prompt loses two bytes to rounding. -/
def sample : Request where
  path := "module.py".toList
  excerpt := "a = 1\nb = 2\nc = 3\n".toList
  editable := { start := 6, stop := 12 }
  cursor := 10
  startRow := none
  changes :=
    [{ path := "module.py".toList
       oldPath := "module.py".toList
       diff := "-b\n+b = 2\n".toList
       predicted := false
       inOpenSource := false }]
  relatedFiles :=
    [{ path := "notes".toList, maxRow := 0, excerpts := [], inOpenSource := false },
      { path := "helper.py".toList
        maxRow := 9
        excerpts := [{ rows := { start := 0, stop := 1 }, text := "d = 44\n".toList }]
        inOpenSource := false }]
  windows := none
  preferredModel := none
  inOpenSource := false

def sampleRegion : Region where
  before := "a = 1\n".toList
  untilCursor := "b = ".toList
  fromCursor := "2\n".toList
  after := "c = 3\n".toList

theorem region_sample (format : Format) : sample.region format = .ok sampleRegion := by
  rfl

end Request

end NextEdit
