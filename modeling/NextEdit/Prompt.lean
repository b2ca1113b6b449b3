import NextEdit.Region.Layout
import NextEdit.History
import NextEdit.Related

/-! Prompts within a token budget. The text around the cursor is always whole; what it leaves of the
budget goes to the edit history first and to related files second. The prompt lists related files,
then the history, then the cursor section. -/
namespace NextEdit

namespace Region

/-- The mandatory text in front of the context sections. -/
def opening (region : Region) : Format → Text
  | .seedCoder => region.seedSuffixSection ++ Marker.seedPrefix
  | _ => []

/-- The mandatory text behind the context sections. -/
def closing (region : Region) (path : Text) : Format → Text
  | .seedCoder => region.layout .seedCoder path ++ Marker.seedMiddle
  | format => region.layout format path

/-- The tokens charged for the mandatory text. -/
def tokens (region : Region) (format : Format) (path : Text) : Nat :=
  match format with
  | .seedCoder =>
    region.seedSuffixSection.tokens + (region.layout .seedCoder path).tokens
  | _ => (region.layout format path).tokens

end Region

/-- A context section as it stands in the prompt; the seed-coder format sets it off by a newline. -/
def Format.setOff : Format → Text → Text
  | .seedCoder, text => if text.isEmpty then [] else text ++ ['\n']
  | _, text => text

/-- The account of one prompt. -/
structure Accounting where
  maxTokens : Int
  cursorTokens : Nat
  historyTokens : Nat
  relatedTokens : Nat
  totalTokens : Nat
  changesIncluded : Nat
  changesTotal : Nat
  filesIncluded : Nat
  filesTotal : Nat
  excerptsIncluded : Nat
deriving DecidableEq

/-- Whether the mandatory text alone costs more than the budget. -/
def Accounting.exceedsBudget (accounting : Accounting) : Bool :=
  accounting.maxTokens < accounting.cursorTokens

structure Prompt where
  format : Format
  text : Text
  accounting : Accounting
deriving DecidableEq

namespace Request

/-- The budget left for context once the mandatory text is paid. -/
def contextBudget (maxTokens : Int) (cursorTokens : Nat) : Int :=
  max (maxTokens - cursorTokens) 0

/-- The history section of a prompt. -/
def historySection (request : Request) (format : Format) (budget : Int) : Section :=
  History.sectionWithin format.fileMarker format.historyName budget request.changes

/-- The related files section of a prompt, after the history is paid. -/
def relatedSection (request : Request) (format : Format) (budget : Int) (history : Section) :
    Section :=
  Related.sectionWithin format.fileMarker (max (budget - history.tokens) 0) request.relatedFiles

/-- Assembles the prompt around a region that is already cut. -/
def promptAround (request : Request) (format : Format) (maxTokens : Int)
    (region : Region) : Prompt :=
  let cursorTokens := region.tokens format request.path
  let budget := contextBudget maxTokens cursorTokens
  let history := request.historySection format budget
  let related := request.relatedSection format budget history
  let text :=
    region.opening format ++ format.setOff related.text ++ format.setOff history.text ++
      region.closing request.path format
  { format
    text
    accounting :=
      { maxTokens
        cursorTokens
        historyTokens := history.tokens
        relatedTokens := related.tokens
        totalTokens := text.tokens
        changesIncluded := history.included
        changesTotal := history.total
        filesIncluded := related.included
        filesTotal := related.total
        excerptsIncluded := related.excerpts } }

/-- The prompt of a request within a budget, or the first offset that does not fit the excerpt. -/
def prompt (request : Request) (format : Format) (maxTokens : Int) :
    Except RangeError Prompt :=
  (request.region format).map (request.promptAround format maxTokens)

end Request

end NextEdit
