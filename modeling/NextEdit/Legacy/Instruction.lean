import NextEdit.TokenBudget
import NextEdit.Marker
import NextEdit.Request.Basic
import NextEdit.Text.Search

/-! The legacy instruction prompt: fixed headers around the edit history in prose, oldest first, and
the fenced excerpt with its region and cursor marked. -/
namespace NextEdit.Legacy

/-- What a path denotes: how it is rooted, and its components without empty ones and `.`. Two
leading slashes are a root of their own; any other number is the same as one. -/
structure PathIdentity where
  leadingSlashes : Nat
  components : List Text
deriving DecidableEq

def PathIdentity.ofText (path : Text) : PathIdentity where
  leadingSlashes :=
    match (path.takeWhile (· == '/')).length with
    | 0 => 0
    | 2 => 2
    | _ => 1
  components :=
    (Text.splitAtChar '/' path).filter fun part => !part.isEmpty && part != ['.']

/-- A change in prose; nothing where neither the path nor the text changed. -/
def describe (change : Change) : Text :=
  (if PathIdentity.ofText change.oldPath = PathIdentity.ofText change.path then []
    else
      "User renamed ".toList ++ change.oldPath ++ " to ".toList ++ change.path ++ "\n\n".toList) ++
  (if change.diff.isEmpty then []
    else
      "User edited ".toList ++ change.path ++ ":\n```diff\n".toList ++ change.diff ++
        "\n```".toList)

def separator : Text := "\n\n".toList

/-- All changes, oldest first; those with nothing to say are left out. -/
def history (changes : List Change) : Text :=
  Text.join separator ((changes.map describe).filter fun text => !text.isEmpty)

/-- The newest changes whose descriptions a budget pays. -/
def keptChanges (budget : Int) (changes : List Change) : List Change :=
  takeLastWithin (fun change => (describe change).tokens) budget changes

/-- The newest changes within a budget, oldest first, and how many they are. -/
def historyWithin (budget : Int) (changes : List Change) : Text × Nat :=
  let kept := keptChanges budget changes
  (Text.join separator (kept.map describe), kept.length)

/-- Cuts the excerpt at an editable span and at the cursor, inside a context. Each offset is checked
against the excerpt before they are compared with each other. -/
def checkCuts (request : Request) (editable context : Span) : Except RangeError Unit := do
  let length := request.excerpt.byteCount
  request.excerpt.checkSpan "context range".toList context
  request.excerpt.checkSpan "editable range".toList editable
  request.excerpt.checkSpan "cursor offset".toList (.point request.cursor)
  if context.contains editable = false then
    throw
      { subject := "editable range".toList, start := editable.start, stop := editable.stop, length,
        fault := .outsideContext context }
  if request.cursor < editable.start ∨ editable.stop < request.cursor then
    throw
      { subject := "cursor offset".toList, start := request.cursor, stop := request.cursor, length,
        fault := .outsideEditable editable }

/-- The fenced excerpt. Only an excerpt shown from its start, where that is the start of the file,
says so. -/
def fencedExcerpt (request : Request) (editable context : Span) : Except RangeError Text := do
  checkCuts request editable context
  let text (start stop : Nat) := Text.between start stop request.excerpt
  return "```".toList ++ request.path ++ ['\n'] ++
    (if request.startRow = some 0 ∧ context.start = 0 then Marker.startOfFile ++ ['\n'] else []) ++
    text context.start editable.start ++ Marker.regionStart ++ ['\n'] ++
    text editable.start request.cursor ++ Marker.legacyCursor ++
    text request.cursor editable.stop ++ ['\n'] ++ Marker.regionEnd ++
    text editable.stop context.stop ++ "\n```".toList

def opening : Text :=
  ("### Instruction:\n" ++
    "You are a code completion assistant and your task is to analyze user edits and then " ++
    "rewrite an excerpt that the user provides, suggesting the appropriate edits within the excerpt, " ++
    "taking into account the cursor location.\n\n" ++
    "### User Edits:\n\n").toList

def excerptHeading : Text := "\n\n### User Excerpt:\n\n".toList

def answerHeading : Text := "\n\n### Response:\n".toList

/-- The prompt around a history and an excerpt. -/
def wrap (history excerpt : Text) : Text :=
  opening ++ history ++ excerptHeading ++ excerpt ++ answerHeading

/-- The prompt of a request. The editable span is the request's own and the context is the whole
excerpt, unless others are given; the history is complete. -/
def prompt (request : Request) (editable context : Option Span) : Except RangeError Text := do
  let excerpt ←
    fencedExcerpt request (editable.getD request.editable) (context.getD request.wholeExcerpt)
  return wrap (history request.changes) excerpt

end NextEdit.Legacy
