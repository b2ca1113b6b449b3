import NextEdit.Marker
import NextEdit.Request.Basic
import NextEdit.Section
import NextEdit.Text.Search

/-! The edit history section: recent changes as diffs, oldest first, as many of the newest as the
budget pays. -/
namespace NextEdit

/-- The components of a path as diff headers show them: the root counts as one, and empty ones and
every `.` past the first place are dropped. -/
def pathComponents (path : Text) : List Text :=
  let root := if path.head? = some '/' then [['/']] else []
  match Text.splitAtChar '/' path with
  | [] => root
  | first :: rest =>
    root ++ (if first.isEmpty then [] else [first]) ++
      rest.filter fun part => !part.isEmpty && part != ['.']

/-- A path with one slash in front of each component. -/
def diffPath (path : Text) : Text :=
  (pathComponents path).flatMap ('/' :: ·)

namespace Change

/-- The change as a diff under its two header lines. -/
def diffBlock (change : Change) : Text :=
  (if change.predicted then Marker.predictionAccepted else []) ++
    "--- a".toList ++ diffPath change.oldPath ++ ['\n'] ++
    "+++ b".toList ++ diffPath change.path ++ ['\n'] ++ change.diff

def diffTokens (change : Change) : Nat :=
  change.diffBlock.tokens

end Change

/-- The line above the history. -/
def History.header (fileMarker name : Text) : Text :=
  fileMarker ++ name ++ ['\n']

/-- The newest changes that fit in `budget` under a header, which has to leave room for more. -/
def History.kept (header : Text) (budget : Int) (changes : List Change) :
    List Change :=
  if budget ≤ header.tokens then []
  else takeLastWithin Change.diffTokens (budget - header.tokens) changes

/-- The history section within a budget; nothing at all where no change fits. -/
def History.sectionWithin (fileMarker name : Text) (budget : Int) (changes : List Change) :
    Section :=
  let header := History.header fileMarker name
  let kept := History.kept header budget changes
  { text := if kept.isEmpty then [] else header ++ kept.flatMap Change.diffBlock
    included := kept.length
    total := changes.length }

end NextEdit
