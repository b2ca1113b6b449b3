import NextEdit.Format
import NextEdit.Request.Basic

/-! The region around the cursor, as the four texts that the editable span and the cursor cut its
context into. `Request.region` picks the window a format was trained on and re-bases it. -/
namespace NextEdit

/-- A context cut at the editable region and at the cursor inside it. -/
structure Region where
  before : Text
  untilCursor : Text
  fromCursor : Text
  after : Text
deriving DecidableEq

namespace Region

def editableText (region : Region) : Text :=
  region.untilCursor ++ region.fromCursor

def context (region : Region) : Text :=
  region.before ++ region.editableText ++ region.after

/-- The editable region as a span of the context. -/
def editable (region : Region) : Span where
  start := region.before.byteCount
  stop := region.before.byteCount + region.editableText.byteCount

/-- The cursor as an offset into the context. -/
def cursor (region : Region) : Nat :=
  region.before.byteCount + region.untilCursor.byteCount

/-- Cuts a context. The editable span is checked first, then that the cursor lies in it, then that
the cursor does not split a character. -/
def cut (context : Text) (editable : Span) (cursor : Int) : Except RangeError Region := do
  context.checkSpan "editable range".toList editable
  if cursor < editable.start ∨ editable.stop < cursor then
    throw
      { subject := "cursor offset".toList, start := cursor, stop := cursor,
        length := context.byteCount, fault := .outsideEditable editable }
  context.checkSpan "cursor offset".toList (.point cursor.toNat)
  return {
    before := context.takeBytes editable.start
    untilCursor := Text.between editable.start cursor.toNat context
    fromCursor := Text.between cursor.toNat editable.stop context
    after := context.dropBytes editable.stop }

/-- The editable text with the cursor marked. -/
def marked (region : Region) : Text :=
  region.untilCursor ++ Marker.cursor ++ region.fromCursor

end Region

namespace Format

/-- The two oldest formats were trained on the narrow window. -/
def window (format : Format) (windows : Windows) : Window :=
  match format with
  | middleAtEnd | ordered => windows.narrow
  | _ => windows.medium

end Format

namespace Request

/-- The window a format uses; without windows, the request's own region in the whole excerpt. -/
def window (request : Request) (format : Format) : Window :=
  match request.windows with
  | some windows => format.window windows
  | none => { editable := request.editable, context := request.wholeExcerpt }

/-- Cuts the excerpt at a window: the context is checked first, then that the editable span and the
cursor lie in it; the rest is checked inside the context. -/
def regionIn (request : Request) (window : Window) : Except RangeError Region := do
  let { editable, context } := window
  let length := request.excerpt.byteCount
  let contextText ← request.excerpt.slice "context range".toList context
  if window.isNested = false then
    throw
      { subject := "editable range".toList, start := editable.start, stop := editable.stop, length,
        fault := .outsideContext context }
  if request.cursor < context.start ∨ context.stop < request.cursor then
    throw
      { subject := "cursor offset".toList, start := request.cursor, stop := request.cursor, length,
        fault := .outsideContext context }
  Region.cut contextText
    { start := editable.start - context.start
      stop := editable.stop - context.start
      ordered := Nat.sub_le_sub_right editable.ordered context.start }
    ((request.cursor - context.start : Nat) : Int)

/-- The region a format shows, or the first offset that does not fit. -/
def region (request : Request) (format : Format) : Except RangeError Region :=
  match request.windows with
  | some windows => request.regionIn (format.window windows)
  | none => Region.cut request.excerpt request.editable request.cursor

end Request

end NextEdit
