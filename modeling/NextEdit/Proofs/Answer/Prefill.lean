import NextEdit.Proofs.Answer.SafeCut
import NextEdit.Proofs.Prompt.Assembly
import NextEdit.Proofs.Region.Resolution

/-! Prefills of prompts. A prefill is a beginning of the text it is cut from, and that text is the
editable span of the request itself. It is a beginning of the region in the prompt where the windows
give that same span; where they give another one, the answer may start with text that the prompt does
not offer for editing, or there may be no prefill at all. -/
namespace NextEdit

namespace Region

/-- The editable text of a region stands between the offsets of its editable span. -/
theorem StandsBetween.between_editable {region : Region}
    (stands : region.StandsBetween front back request window) :
    Text.between window.editable.start window.editable.stop request.excerpt =
      region.editableText := by
  have pieces : request.excerpt =
      (front ++ region.before) ++ (region.editableText ++ (region.after ++ back)) := by
    simp only [stands.parts, context, List.append_assoc]
  have start : (front ++ region.before).byteCount = window.editable.start := by
    rw [Text.byteCount_append, stands.editableStart]
  have stop : (front ++ region.before).byteCount + region.editableText.byteCount =
      window.editable.stop := by
    rw [Text.byteCount_append, Nat.add_assoc]
    exact stands.editableStop
  rw [← stop, ← start, pieces, Text.between_append]

end Region

namespace Request

variable {request : Request} {assembled : Prompt} {own text : Text}

/-- A prefill is cut from the text of the request's own editable span. -/
theorem prefill_eq (fits : request.excerpt.slice "editable range".toList request.editable =
    .ok own) : request.prefill .prefill = .ok (NextEdit.prefill own) := by
  rw [prefill, fits]
  rfl

theorem exists_of_prefill (cuts : request.prefill .prefill = .ok text) :
    ∃ own, request.excerpt.slice "editable range".toList request.editable = .ok own ∧
      text = NextEdit.prefill own := by
  cases fits : request.excerpt.slice "editable range".toList request.editable with
  | error error =>
    rw [prefill, fits] at cuts
    cases cuts
  | ok own =>
    rw [prefill_eq fits] at cuts
    exact ⟨own, rfl, (Except.ok.inj cuts).symm⟩

/-- Where the prompt shows the region that the request itself gives, it has a prefill. -/
theorem prefill_of_stands {region : Region} {shown : Window}
    (stands : region.StandsBetween front back request shown)
    (same : shown.editable = request.editable) :
    request.prefill .prefill = .ok (NextEdit.prefill region.editableText) := by
  have boundaries := stands.fits.boundaries
  have fits : ∃ own, request.excerpt.slice "editable range".toList request.editable = .ok own := by
    apply Text.exists_slice_iff.mpr
    rw [← same]
    exact ⟨boundaries _ (by simp), boundaries _ (by simp)⟩
  obtain ⟨own, fits⟩ := fits
  rw [prefill_eq fits, Text.eq_between_of_slice fits, ← same, stands.between_editable]

/-- A request with a prompt has a prefill exactly where its own editable span fits its excerpt. The
prefill is a beginning of the text of that span; where the prompt shows the same span, with windows or
without, there is a prefill, and it is a beginning of the region shown. -/
theorem prefill_of_prompt (prompted : request.prompt .prefill maxTokens = .ok assembled) :
    ∃ region, request.region .prefill = .ok region ∧
      ((∃ text, request.prefill .prefill = .ok text) ↔
        request.excerpt.isBoundary request.editable.start = true ∧
          request.excerpt.isBoundary request.editable.stop = true) ∧
      (∀ text, request.prefill .prefill = .ok text →
        text <+: Text.between request.editable.start request.editable.stop request.excerpt) ∧
      ((request.window .prefill).editable = request.editable →
        ∃ text, request.prefill .prefill = .ok text ∧ text <+: region.editableText) := by
  obtain ⟨region, resolves, _⟩ := exists_region_of_prompt prompted
  refine ⟨region, resolves, ?_, ?_, ?_⟩
  · rw [← Text.exists_slice_iff]
    constructor
    · rintro ⟨text, cuts⟩
      obtain ⟨own, fits, _⟩ := exists_of_prefill cuts
      exact ⟨own, fits⟩
    · rintro ⟨own, fits⟩
      exact ⟨NextEdit.prefill own, prefill_eq fits⟩
  · intro text cuts
    obtain ⟨own, fits, rfl⟩ := exists_of_prefill cuts
    rw [← Text.eq_between_of_slice fits]
    exact prefill_isPrefix own
  · intro same
    obtain ⟨front, back, stands⟩ := region_eq_ok_iff.mp resolves
    exact ⟨_, prefill_of_stands stands same, prefill_isPrefix region.editableText⟩

/-- A request whose windows show one function of its excerpt, whatever its own editable span is. -/
def ofFunction (editable : Span) : Request where
  path := "shapes.py".toList
  excerpt := "import os\n\ndef area(w, h):\n    return w * h\n".toList
  editable
  cursor := 31
  startRow := none
  changes := []
  relatedFiles := []
  windows :=
    let function : Window := ⟨{ start := 11, stop := 44 }, { start := 0, stop := 44 }⟩
    some { narrow := function, medium := function, wide := function, narrow_nested := rfl,
           medium_nested := rfl, wide_nested := rfl }
  preferredModel := none
  inOpenSource := false

def functionRegion : Region where
  before := "import os\n\n".toList
  untilCursor := "def area(w, h):\n    ".toList
  fromCursor := "return w * h\n".toList
  after := []

theorem region_ofFunction (editable : Span) :
    (ofFunction editable).region .prefill = .ok functionRegion := by
  apply region_eq_ok_iff.mpr
  exact ⟨[], [], { parts := rfl, contextStart := rfl, contextStop := rfl, editableStart := rfl,
                   cursor := rfl, editableStop := rfl }⟩

theorem prefill_of_prompt_ofFunction :
    (∃ prompt, (ofFunction { start := 11, stop := 44 }).prompt .prefill 4096 = .ok prompt) ∧
      ∃ text, (ofFunction { start := 11, stop := 44 }).prefill .prefill = .ok text ∧
        text <+: functionRegion.editableText := by
  have prompted : (ofFunction { start := 11, stop := 44 }).prompt .prefill 4096 = .ok _ :=
    prompt_of_region (region_ofFunction _)
  obtain ⟨region, resolves, _, _, seeds⟩ := prefill_of_prompt prompted
  rw [region_ofFunction] at resolves
  rw [Except.ok.inj resolves]
  exact ⟨⟨_, prompted⟩, seeds rfl⟩

/-- A request that has its whole excerpt as editable gives a prefill from in front of the function
that its prompt shows; one whose own span leaves the excerpt has a prompt and no prefill. -/
theorem prefill_not_of_region :
    (∃ prompt, (ofFunction { start := 0, stop := 44 }).prompt .prefill 4096 = .ok prompt) ∧
      (ofFunction { start := 0, stop := 44 }).region .prefill = .ok functionRegion ∧
      (ofFunction { start := 0, stop := 44 }).prefill .prefill = .ok "impo".toList ∧
      ¬ "impo".toList <+: functionRegion.editableText ∧
      (∃ prompt, (ofFunction { start := 0, stop := 45 }).prompt .prefill 4096 = .ok prompt) ∧
      ∃ error, (ofFunction { start := 0, stop := 45 }).prefill .prefill = .error error := by
  refine ⟨⟨_, prompt_of_region (region_ofFunction _)⟩, region_ofFunction _, rfl, ?_,
    ⟨_, prompt_of_region (region_ofFunction _)⟩, ⟨_, rfl⟩⟩
  decide

end Request

end NextEdit
