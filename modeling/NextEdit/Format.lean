import NextEdit.Marker
import NextEdit.Text.Letter
import NextEdit.Text.Search

/-! The catalog of prompt formats: their names, how a part of a name selects one, and the special
tokens that each reserves. -/
namespace NextEdit

/-- The formats, oldest first. -/
inductive Format
  | middleAtEnd
  | ordered
  | mediumRegion
  | mergeMarkers
  | mergeBeforeSuffix
  | prefill
  | seedCoder
deriving DecidableEq

namespace Format

def all : List Format :=
  [middleAtEnd, ordered, mediumRegion, mergeMarkers, mergeBeforeSuffix, prefill, seedCoder]

theorem mem_all (format : Format) : format ∈ all := by
  cases format <;> decide

def name : Format → Text
  | middleAtEnd => "V0112MiddleAtEnd".toList
  | ordered => "V0113Ordered".toList
  | mediumRegion => "V0114180EditableRegion".toList
  | mergeMarkers => "V0120GitMergeMarkers".toList
  | mergeBeforeSuffix => "V0131GitMergeMarkersPrefix".toList
  | prefill => "V0211Prefill".toList
  | seedCoder => "V0211SeedCoder".toList

def default : Format := mediumRegion

/-- A name that selects no format, or more than one. -/
structure SelectError where
  name : Text
  ambiguous : Bool
deriving DecidableEq

/-- All names, one line each. -/
def nameList : Text :=
  all.flatMap fun format => "- ".toList ++ format.name ++ ['\n']

def SelectError.message (error : SelectError) : Text :=
  let verdict :=
    if error.ambiguous then " matched more than one of:\n" else " did not match any of:\n"
  "`".toList ++ error.name ++ "`".toList ++ verdict.toList ++ nameList

/-- The one format whose name has the given text as a part, in any case. -/
def select (name : Text) : Except SelectError Format :=
  match all.filter fun format => Text.contains (Text.lower name) (Text.lower format.name) with
  | [format] => .ok format
  | [] => .error { name, ambiguous := false }
  | _ => .error { name, ambiguous := true }

def fimReserved : List Text :=
  [Marker.fimPrefix, Marker.fimSuffix, Marker.fimMiddle, Marker.fileSeparator]

def seedReserved : List Text :=
  [Marker.seedSuffix, Marker.seedPrefix, Marker.seedMiddle, Marker.seedFile]

def mergeReserved : List Text :=
  [Marker.mergeStart, Marker.mergeSeparator, Marker.mergeEnd]

/-- The tokens that a prompt in this format must not take from the user's text. -/
def reserved : Format → List Text
  | middleAtEnd | ordered | mediumRegion => fimReserved ++ [Marker.cursor]
  | mergeMarkers | mergeBeforeSuffix | prefill => fimReserved ++ mergeReserved ++ [Marker.cursor]
  | seedCoder => seedReserved ++ mergeReserved ++ [Marker.cursor]

/-- The special tokens that occur in a text, in the order of the table. -/
def collisions (format : Format) (text : Text) : List Text :=
  format.reserved.filter fun token => Text.contains token text

/-- The marker in front of a file's path. -/
def fileMarker : Format → Text
  | seedCoder => Marker.seedFile
  | _ => Marker.fileSeparator

/-- The path under which the edit history stands. -/
def historyName : Format → Text
  | seedCoder => "edit_history".toList
  | _ => "edit history".toList

end Format

end NextEdit
