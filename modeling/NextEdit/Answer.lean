import NextEdit.Region.Basic
import NextEdit.Text.Search

/-! The two ends of a model's answer. A prefill is the start of the editable region, handed to the
model as the start of its answer and cut where its own tokens end; some models close an answer with
a marker, which is not part of it. -/
namespace NextEdit

/-- The text up to the last occurrence of a character, without it, where there is one. -/
def Text.beforeLast? (char : Char) (text : Text) : Option Text :=
  match text.reverse.dropWhile (· != char) with
  | [] => none
  | _ :: reversed => some reversed.reverse

/-- One part in this many of the editable region may be prefilled. -/
def prefillShare : Nat := 10

/-- Cuts a prefill: after the last newline of the share and the newlines that follow it, else
before its last space, else at the end of the share. -/
def prefill (editable : Text) : Text :=
  let share := editable.takeBytes (editable.byteCount / prefillShare)
  match share.beforeLast? '\n' with
  | some lines =>
    lines ++ (editable.drop lines.length).takeWhile (· == '\n')
  | none => (share.beforeLast? ' ').getD share

/-- The prefill of a request, cut from the editable range that the request itself gives. Every
format but one has none. -/
def Request.prefill (request : Request) : Format → Except RangeError Text
  | .prefill =>
    (request.excerpt.slice "editable range".toList request.editable).map NextEdit.prefill
  | _ => .ok []

namespace Format

/-- The marker that closes an answer, for the models that write one. -/
def endMarker? : Format → Option Text
  | mergeMarkers | mergeBeforeSuffix | seedCoder => some Marker.mergeEnd
  | middleAtEnd | ordered | mediumRegion | prefill => none

/-- An answer without the marker that closes it. -/
def cleanAnswer (format : Format) (answer : Text) : Text :=
  match format.endMarker? with
  | some marker => Text.dropEnding marker answer
  | none => answer

end Format

end NextEdit
