import NextEdit.Proofs.Budget.Related
import NextEdit.Proofs.Text.Slices
import Mathlib.Data.List.Chain
import Mathlib.Data.List.Forall2

/-! The spans of related files without a budget. They tile the text that is written, and each holds
what its file would write alone, so that a text can be taken apart into its files again. -/
namespace NextEdit

/-- Spans that lie one behind the other from an offset on, each as long as its text. -/
inductive Span.Tile : (offset : Nat) → List Text → List Span → Prop
  | nil : Tile offset [] []
  | cons {offset : Nat} {text : Text} {texts : List Text} {span : Span} {spans : List Span}
      (starts : span.start = offset) (stops : span.stop = offset + text.byteCount)
      (later : Tile span.stop texts spans) : Tile offset (text :: texts) (span :: spans)

/-- The span is where `part` stands in `whole`. -/
def Span.Holds (span : Span) (whole part : Text) : Prop :=
  ∃ front back, whole = front ++ (part ++ back) ∧ span.start = front.byteCount ∧
    span.stop = front.byteCount + part.byteCount

namespace Span

variable {span : Span} {whole part : Text}

theorem Holds.boundaries (holds : span.Holds whole part) :
    whole.isBoundary span.start = true ∧ whole.isBoundary span.stop = true := by
  obtain ⟨front, back, rfl, starts, stops⟩ := holds
  rw [starts, stops]
  refine ⟨Text.isBoundary_byteCount front _, ?_⟩
  rw [← List.append_assoc, ← Text.byteCount_append]
  exact Text.isBoundary_byteCount (front ++ part) back

theorem Holds.bytes (holds : span.Holds whole part) :
    ((Text.encode whole).drop span.start).take (span.stop - span.start) = Text.encode part := by
  obtain ⟨front, back, rfl, starts, stops⟩ := holds
  rw [starts, stops, Nat.add_sub_cancel_left, Text.take_drop_encode]

variable {texts : List Text} {spans : List Span}

theorem Tile.start_eq (tile : Tile offset texts spans) :
    ∀ span ∈ spans.head?, span.start = offset := by
  cases tile with
  | nil => simp
  | cons starts stops later => simpa using starts

/-- Each span starts where the one in front of it stops. -/
theorem Tile.isChain (tile : Tile offset texts spans) :
    spans.IsChain fun earlier later => later.start = earlier.stop := by
  induction tile with
  | nil => exact .nil
  | cons starts stops later ih => exact List.isChain_cons.mpr ⟨later.start_eq, ih⟩

theorem Tile.stop_eq (tile : Tile offset texts spans) :
    ∀ span ∈ spans.getLast?, span.stop = offset + Text.byteCount texts.flatten := by
  induction tile with
  | nil => simp
  | cons starts stops later ih =>
    rw [List.flatten_cons, Text.byteCount_append, ← Nat.add_assoc, ← stops]
    cases later with
    | nil => simp
    | cons nextStarts nextStops rest =>
      rw [List.getLast?_cons_cons]
      exact ih

/-- Behind the text that reaches up to the offset, each text is where its span is. -/
theorem Tile.holds (front : Text) (tile : Tile offset texts spans)
    (place : offset = front.byteCount) :
    List.Forall₂ (fun text span => span.Holds (front ++ texts.flatten) text) texts spans := by
  induction tile generalizing front with
  | nil => exact .nil
  | @cons offset text texts span spans starts stops later ih =>
    rw [List.flatten_cons]
    refine .cons ⟨front, texts.flatten, rfl, starts.trans place, place ▸ stops⟩ ?_
    have next : span.stop = (front ++ text).byteCount := by
      rw [stops, place, Text.byteCount_append]
    have rest := ih (front ++ text) next
    rwa [List.append_assoc] at rest

end Span

namespace Related

/-- Behind any text, files are given the spans of their blocks. -/
theorem tile_writeFrom (fileMarker text : Text) (files : List File) :
    Span.Tile text.byteCount (files.map (File.block fileMarker))
      (writeFrom fileMarker text files).2 := by
  induction files generalizing text with
  | nil => exact .nil
  | cons file rest ih =>
    refine .cons rfl ?_ (ih (file.appendTo fileMarker text))
    exact (congrArg _ (file.appendTo_eq fileMarker text)).trans (Text.byteCount_append _ _)

theorem write_eq_flatten (fileMarker : Text) (files : List File) :
    (write fileMarker files).1 = (files.map (File.block fileMarker)).flatten := by
  rw [write_text, List.flatMap_def]

theorem write_singleton (fileMarker : Text) (file : File) :
    (write fileMarker [file]).1 = file.block fileMarker := by
  rw [write_text, List.flatMap_cons, List.flatMap_nil, List.append_nil]

theorem write_append (fileMarker : Text) (files more : List File) :
    (write fileMarker (files ++ more)).1 =
      (write fileMarker files).1 ++ (write fileMarker more).1 := by
  rw [write_text, write_text, write_text, List.flatMap_append]

/-- Each span is where its file stands in the text, written as it would be alone. -/
theorem holds_write (fileMarker : Text) (files : List File) :
    List.Forall₂ (fun file span =>
      Span.Holds span (write fileMarker files).1 (write fileMarker [file]).1)
      files (write fileMarker files).2 := by
  simp only [write_singleton]
  rw [write_eq_flatten]
  exact List.forall₂_map_left_iff.mp ((tile_writeFrom fileMarker [] files).holds [] rfl)

/-- The spans of the files tile the text, from its first byte to its last; in each span, from character
to character, stands what its file writes alone, and more files write their text behind. -/
theorem write_tiles (fileMarker : Text) (files : List File) :
    let text := (write fileMarker files).1
    let spans := (write fileMarker files).2
    spans.length = files.length ∧
    (∀ span ∈ spans.head?, span.start = 0) ∧
    (spans.IsChain fun earlier later => later.start = earlier.stop) ∧
    (∀ span ∈ spans.getLast?, span.stop = text.byteCount) ∧
    (files = [] → text = []) ∧
    List.Forall₂ (fun file span =>
      text.isBoundary span.start = true ∧ text.isBoundary span.stop = true ∧
        ((Text.encode text).drop span.start).take (span.stop - span.start) =
          Text.encode (write fileMarker [file]).1) files spans ∧
    ∀ more, (write fileMarker (files ++ more)).1 = text ++ (write fileMarker more).1 := by
  intro text spans
  have tile : Span.Tile 0 (files.map (File.block fileMarker)) spans :=
    tile_writeFrom fileMarker [] files
  have holds := holds_write fileMarker files
  refine ⟨holds.length_eq.symm, tile.start_eq, tile.isChain, ?_, ?_, ?_, ?_⟩
  · have whole : text = (files.map (File.block fileMarker)).flatten :=
      write_eq_flatten fileMarker files
    rw [whole]
    simpa using tile.stop_eq
  · rintro rfl
    rfl
  · exact holds.imp fun file span stands =>
      ⟨stands.boundaries.1, stands.boundaries.2, stands.bytes⟩
  · exact write_append fileMarker files

end Related

end NextEdit
