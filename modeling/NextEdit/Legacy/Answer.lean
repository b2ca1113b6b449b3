import NextEdit.Marker
import NextEdit.Numeral.Decimal
import NextEdit.Text.Search

/-! What the legacy model answers: the excerpt again, its rewrite between region markers and a
cursor marker somewhere in it. `regionWithCursor` takes any answer and keeps the cursor; `extract` refuses
repeated markers and drops it. Offsets count bytes. -/
namespace NextEdit.Legacy

/-- A marker that an answer repeats. -/
structure RepeatedMarker where
  marker : Text
  count : Nat
deriving DecidableEq

def RepeatedMarker.message (error : RepeatedMarker) : Text :=
  "expected at most one ".toList ++ error.marker ++ " marker, found ".toList ++
    Numeral.ofNat error.count

/-- The answer without its cursor markers. -/
def withoutCursors (answer : Text) : Text :=
  Text.eraseAll Marker.legacyCursor answer

/-- Where the region starts: after the start marker and one newline, or at the very start. -/
def innerStart (content : Text) : Nat :=
  match Text.splitFirst? Marker.regionStart content with
  | none => 0
  | some (before, rest) =>
    before.byteCount + Marker.regionStart.byteCount + (if rest.head? = some '\n' then 1 else 0)

/-- Where the region before the end marker stops: a newline right before the marker is not in it. -/
def innerStop? (content : Text) : Option Nat :=
  (Text.splitFirst? Marker.regionEnd content).map fun (before, _) =>
    before.byteCount - (if before.endsLine then 1 else 0)

/-- The text of the region, whole where a marker is missing, empty where the markers are crossed. -/
def region (content : Text) : Text :=
  let start := innerStart content
  let stop := (innerStop? content).getD content.byteCount
  if stop < start then [] else Text.between start stop content

/-- The rewritten region with the first cursor marker, counted from the start of the region,
turned into the standard one. -/
def regionWithCursor (answer : Text) : Text :=
  let content := withoutCursors answer
  let stop := (innerStop? content).getD content.byteCount
  if stop < innerStart content then []
  else
    match Text.splitFirst? Marker.legacyCursor answer with
    | none => region content
    | some (before, _) =>
      let offset := before.byteCount - innerStart before
      (region content).takeBytes offset ++ Marker.cursor ++ (region content).dropBytes offset

/-- The markers that may stand in an answer once. -/
def singleMarkers : List Text :=
  [Marker.regionStart, Marker.regionEnd, Marker.startOfFile]

/-- The first marker that occurs more than once. -/
def repeatedMarker? (content : Text) : Option RepeatedMarker :=
  singleMarkers.findSome? fun marker =>
    let count := Text.count marker content
    if 1 < count then some { marker, count } else none

/-- The rewritten region without a cursor. An answer without an end marker gives up one final
newline. -/
def extract (answer : Text) : Except RepeatedMarker Text :=
  let content := withoutCursors answer
  match repeatedMarker? content with
  | some error => .error error
  | none =>
    let unclosed := content.byteCount - (if content.endsLine then 1 else 0)
    let stop := (innerStop? content).getD unclosed
    .ok (Text.between (min (innerStart content) stop) stop content)

end NextEdit.Legacy
