import NextEdit.Json.Writer
import NextEdit.Request.Basic

/-! Requests written as compact JSON, members in their order, absent values left out. -/
namespace NextEdit

open Json

def Span.toJson (span : Span) : Json :=
  object [("start".toList, int span.start), ("end".toList, int span.stop)]

def Change.toJson (change : Change) : Json :=
  object
    [("event".toList, string "BufferChange".toList),
      ("path".toList, string change.path),
      ("old_path".toList, string change.oldPath),
      ("diff".toList, string change.diff),
      ("predicted".toList, bool change.predicted),
      ("in_open_source_repo".toList, bool change.inOpenSource)]

def Related.Excerpt.toJson (excerpt : Related.Excerpt) : Json :=
  object [("row_range".toList, excerpt.rows.toJson), ("text".toList, string excerpt.text)]

def Related.File.toJson (file : Related.File) : Json :=
  object
    [("path".toList, string file.path),
      ("max_row".toList, int file.maxRow),
      ("excerpts".toList, list (file.excerpts.map Related.Excerpt.toJson)),
      ("in_open_source_repo".toList, bool file.inOpenSource)]

def Windows.toJson (windows : Windows) : Json :=
  object
    [("editable_150".toList, windows.narrow.editable.toJson),
      ("editable_180".toList, windows.medium.editable.toJson),
      ("editable_350".toList, windows.wide.editable.toJson),
      ("editable_150_context_350".toList, windows.narrow.context.toJson),
      ("editable_180_context_350".toList, windows.medium.context.toJson),
      ("editable_350_context_150".toList, windows.wide.context.toJson)]

def PreferredModel.toJson : PreferredModel → Json
  | legacy => string "legacy".toList
  | current => string "current".toList

namespace Request

/-- A member that is written only when it has a value. -/
def present (name : Text) (value : Option Json) : List (Text × Json) :=
  match value with
  | some json => [(name, json)]
  | none => []

def toJson (request : Request) : Json :=
  object
    ([("cursor_path".toList, string request.path),
        ("cursor_excerpt".toList, string request.excerpt),
        ("editable_range".toList, request.editable.toJson),
        ("cursor_offset".toList, int request.cursor)] ++
      present "excerpt_start_row".toList (request.startRow.map int) ++
      [("events".toList, list (request.changes.map Change.toJson)),
        ("related_files".toList, list (request.relatedFiles.map Related.File.toJson))] ++
      present "excerpt_ranges".toList (request.windows.map Windows.toJson) ++
      present "preferred_model".toList (request.preferredModel.map PreferredModel.toJson) ++
      [("in_open_source_repo".toList, bool request.inOpenSource)])

def encode (request : Request) : Text :=
  Json.write .compact request.toJson

end Request

end NextEdit
