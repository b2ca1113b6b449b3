import NextEdit.Span

/-! What a request for an edit prediction carries: the excerpt around the cursor, the recent
changes, and excerpts of related files. -/
namespace NextEdit

/-- One change to a buffer, told by a diff that nothing here looks into. -/
structure Change where
  path : Text
  oldPath : Text
  diff : Text
  /-- The change is a prediction that was accepted. -/
  predicted : Bool
  inOpenSource : Bool
deriving DecidableEq

/-- A piece of a related file and the rows it covers. -/
structure Related.Excerpt where
  rows : Span
  text : Text
deriving DecidableEq

/-- A file related to the one being edited; its excerpts stand in order of priority. -/
structure Related.File where
  path : Text
  maxRow : Nat
  excerpts : List Related.Excerpt
  inOpenSource : Bool
deriving DecidableEq

/-- What may be edited, and the context to show around it. -/
structure Window where
  editable : Span
  context : Span
deriving DecidableEq

def Window.isNested (window : Window) : Bool :=
  window.context.contains window.editable

/-- The windows computed in advance for editable regions of 150, 180 and 350 tokens. -/
structure Windows where
  narrow : Window
  medium : Window
  wide : Window
  narrow_nested : narrow.isNested = true
  medium_nested : medium.isNested = true
  wide_nested : wide.isNested = true
deriving DecidableEq

inductive PreferredModel
  | legacy
  | current
deriving DecidableEq

/-- Changes stand oldest first, related files in order of priority. -/
structure Request where
  path : Text
  excerpt : Text
  editable : Span
  cursor : Nat
  startRow : Option Int
  changes : List Change
  relatedFiles : List Related.File
  windows : Option Windows
  preferredModel : Option PreferredModel
  inOpenSource : Bool
deriving DecidableEq

/-- The whole excerpt as a span. -/
def Request.wholeExcerpt (request : Request) : Span where
  start := 0
  stop := request.excerpt.byteCount

end NextEdit
