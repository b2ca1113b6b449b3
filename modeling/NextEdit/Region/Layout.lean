import NextEdit.Region.Basic

/-! The section of a prompt that shows the region around the cursor. Formats differ in the order of
the parts and in their markers; a part that has to end its line is closed with a newline. -/
namespace NextEdit

/-- The line that names a file. -/
def Format.fileLine (format : Format) (path : Text) : Text :=
  format.fileMarker ++ path ++ ['\n']

namespace Region

/-- The region between merge markers, the answer still open. -/
def mergeBlock (opening : Text) (region : Region) : Text :=
  Text.closeLine (opening ++ Marker.mergeStart ++ region.marked) ++ Marker.mergeSeparator

/-- The current text of the region as the middle, in the formats without merge markers. -/
def currentBlock (region : Region) : Text :=
  Text.closeLine (Marker.fimMiddle ++ "current\n".toList ++ region.marked)

/-- Opens the answer in the formats without merge markers. -/
def updatedLine : Text :=
  Marker.fimMiddle ++ "updated\n".toList

/-- The part of the section that follows the file line. -/
def body (region : Region) : Format → Text
  | .middleAtEnd =>
    Marker.fimPrefix ++ ['\n'] ++ region.before ++
      Text.closeLine (Marker.fimSuffix ++ ['\n'] ++ region.after) ++ region.currentBlock ++
      updatedLine
  | .ordered | .mediumRegion =>
    Text.closeLine (Marker.fimPrefix ++ ['\n'] ++ region.before) ++ region.currentBlock ++
      Text.closeLine (Marker.fimSuffix ++ ['\n'] ++ region.after) ++ updatedLine
  | .mergeMarkers =>
    Marker.fimPrefix ++ region.before ++ Text.closeLine (Marker.fimSuffix ++ region.after) ++
      region.mergeBlock Marker.fimMiddle
  | .mergeBeforeSuffix | .prefill =>
    Marker.fimPrefix ++ region.before ++ region.mergeBlock [] ++
      Text.closeLine (Marker.fimSuffix ++ region.after) ++ Marker.fimMiddle
  | .seedCoder => region.before ++ region.mergeBlock []

/-- The section as a format writes it. -/
def layout (region : Region) (format : Format) (path : Text) : Text :=
  format.fileLine path ++ region.body format

/-- The text after the region, which comes first in the seed-coder format. -/
def seedSuffixSection (region : Region) : Text :=
  Text.closeLine (Marker.seedSuffix ++ region.after)

end Region

end NextEdit
