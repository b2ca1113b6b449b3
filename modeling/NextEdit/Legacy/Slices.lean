import NextEdit.Legacy.Answer
import NextEdit.Octets.Search

/-! The readings of a legacy answer over its bytes. They search the bytes for markers, cut slices at the
offsets that they find, and decode the slices. -/
namespace NextEdit.Legacy

/-- A slice of bytes; nothing orders its ends. -/
structure Slice where
  start : Nat
  stop : Nat
deriving DecidableEq

namespace Slice

def bytes (data : Octets) (slice : Slice) : Octets :=
  (data.drop slice.start).take (slice.stop - slice.start)

/-- The text of a slice, where its bytes are UTF-8. -/
def decode? (data : Octets) (slice : Slice) : Option Text :=
  Text.decode (slice.bytes data)

end Slice

/-- Where the region starts in the bytes: behind the start marker and one newline, or at the very start. -/
def startOffset (data : Octets) : Nat :=
  match Octets.find? (Text.encode Marker.regionStart) data with
  | none => 0
  | some place =>
    let behind := place + (Text.encode Marker.regionStart).length
    if data[behind]? = some 10 then behind + 1 else behind

/-- Where the region stops in the bytes: at the end marker, or at a newline right in front of it. -/
def stopOffset? (data : Octets) : Option Nat :=
  (Octets.find? (Text.encode Marker.regionEnd) data).map fun place =>
    if 0 < place ∧ data[place - 1]? = some 10 then place - 1 else place

/-- Decodes slices, and puts the standard cursor between neighbours. -/
def decodeSlices? (data : Octets) (slices : List Slice) : Option Text :=
  (slices.mapM (Slice.decode? data)).map (Text.join Marker.cursor)

/-- The bytes of an answer without its cursor markers. -/
def strippedOctets (raw : Octets) : Octets :=
  Octets.eraseAll (Text.encode Marker.legacyCursor) raw

/-- The slices that the lenient reading decodes: none of a crossed region, the region, or what stands in
it on both sides of the cursor. The offset of the cursor is counted in the answer as it stands, and then
moved into the region and down to a boundary there. -/
def lenientSlices (raw : Octets) : List Slice :=
  let content := strippedOctets raw
  let start := startOffset content
  let stop := (stopOffset? content).getD content.length
  if stop < start then []
  else
    match Octets.find? (Text.encode Marker.legacyCursor) raw with
    | none => [⟨start, stop⟩]
    | some place =>
      let inner := Slice.bytes content ⟨start, stop⟩
      let offset := place - startOffset (raw.take place)
      let cut := start + Octets.lastBoundary inner offset
      [⟨start, cut⟩, ⟨cut, stop⟩]

/-- The lenient reading over bytes. -/
def readLeniently? (raw : Octets) : Option Text :=
  decodeSlices? (strippedOctets raw) (lenientSlices raw)

/-- The slice that the strict reading decodes. -/
def strictSlice (data : Octets) : Slice :=
  let unclosed := if data.getLast? = some 10 then data.length - 1 else data.length
  let stop := (stopOffset? data).getD unclosed
  ⟨min (startOffset data) stop, stop⟩

/-- Why the strict reading gives no text: a marker repeated, or bytes that are not UTF-8. -/
inductive ReadingError
  | repeated (error : RepeatedMarker)
  | undecodable

/-- The strict reading, over the bytes of an answer without its cursor markers. -/
def readStrictly (answer : Text) : Except ReadingError Text :=
  let content := withoutCursors answer
  match repeatedMarker? content with
  | some error => .error (.repeated error)
  | none =>
    match (strictSlice (Text.encode content)).decode? (Text.encode content) with
    | some text => .ok text
    | none => .error .undecodable

end NextEdit.Legacy
