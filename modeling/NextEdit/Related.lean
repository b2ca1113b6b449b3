import NextEdit.Marker
import NextEdit.Request.Basic
import NextEdit.Section

/-! The related files section: files in order of priority, each cut after the last excerpt that the
budget pays. A file of which no excerpt fits is passed over; a header that does not fit ends the
section. -/
namespace NextEdit

namespace Related.Excerpt

/-- Whether rows of the file follow the excerpt. -/
def isCutShort (maxRow : Nat) (excerpt : Related.Excerpt) : Bool :=
  excerpt.rows.stop < maxRow

/-- The tokens charged for an excerpt: its text, the newline it may need, and an ellipsis. -/
def cost (maxRow : Nat) (excerpt : Related.Excerpt) : Nat :=
  (excerpt.text.byteCount + (if excerpt.text.endsLine then 0 else 1) +
    (if excerpt.isCutShort maxRow then Marker.ellipsis.byteCount else 0)) / bytesPerToken

/-- Writes an excerpt behind the text so far and closes the line. -/
def appendTo (maxRow : Nat) (text : Text) (excerpt : Related.Excerpt) : Text :=
  Text.closeLine (text ++ excerpt.text) ++
    (if excerpt.isCutShort maxRow then Marker.ellipsis else [])

end Related.Excerpt

namespace Related.File

def header (fileMarker : Text) (file : Related.File) : Text :=
  fileMarker ++ file.path ++ ['\n']

def appendExcerpts (text : Text) (file : Related.File) : Text :=
  file.excerpts.foldl (Related.Excerpt.appendTo file.maxRow) text

/-- Writes a file with all its excerpts behind the text so far. -/
def appendTo (fileMarker : Text) (text : Text) (file : Related.File) : Text :=
  file.appendExcerpts (text ++ file.header fileMarker)

theorem byteCount_le_appendExcerpts (file : Related.File) (excerpts : List Related.Excerpt)
    (text : Text) :
    text.byteCount ≤
      Text.byteCount (excerpts.foldl (Related.Excerpt.appendTo file.maxRow) text) := by
  induction excerpts generalizing text with
  | nil => exact Nat.le_refl _
  | cons excerpt rest ih =>
    refine Nat.le_trans ?_ (ih _)
    have := Text.byteCount_le_closeLine (text ++ excerpt.text)
    simp only [Text.byteCount_append, Related.Excerpt.appendTo] at this ⊢
    omega

theorem byteCount_le_appendTo (fileMarker text : Text) (file : Related.File) :
    text.byteCount ≤ Text.byteCount (file.appendTo fileMarker text) := by
  refine Nat.le_trans ?_ (file.byteCount_le_appendExcerpts _ _)
  simp

end Related.File

/-- Writes files behind the text so far, with the span of bytes that each one takes. -/
def Related.writeFrom (fileMarker text : Text) : List Related.File → Text × List Span
  | [] => (text, [])
  | file :: rest =>
    let longer := file.appendTo fileMarker text
    let (whole, blocks) := Related.writeFrom fileMarker longer rest
    (whole,
      { start := text.byteCount
        stop := longer.byteCount
        ordered := file.byteCount_le_appendTo fileMarker text } :: blocks)

/-- All files without a budget. -/
def Related.write (fileMarker : Text) (files : List Related.File) : Text × List Span :=
  Related.writeFrom fileMarker [] files

/-- The files that a budget pays, each cut to the excerpts it pays. -/
def Related.select (fileMarker : Text) : Int → List Related.File → List Related.File
  | _, [] => []
  | budget, file :: rest =>
    let headerTokens := (file.header fileMarker).tokens
    if (headerTokens : Int) ≤ budget then
      let cost := Related.Excerpt.cost file.maxRow
      let kept := takeWithin cost (budget - headerTokens) file.excerpts
      if kept.isEmpty then Related.select fileMarker budget rest
      else
        { file with excerpts := kept } ::
          Related.select fileMarker (budget - headerTokens - totalCost cost kept) rest
    else []

/-- The related files section within a budget. -/
def Related.sectionWithin (fileMarker : Text) (budget : Int) (files : List Related.File) :
    Section :=
  let kept := Related.select fileMarker budget files
  { text := kept.foldl (Related.File.appendTo fileMarker) []
    included := kept.length
    total := files.length
    excerpts := (kept.flatMap (·.excerpts)).length }

end NextEdit
