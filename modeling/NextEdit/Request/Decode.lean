import NextEdit.Json.Reader
import NextEdit.Request.Basic
import NextEdit.Request.Scalar

/-! Requests read from JSON. Members are checked in the order in which requests are written, all
issues are kept, and rules between members are checked once the members themselves hold. -/
namespace NextEdit

open Json Checked

def Span.ofJson : Json → Checked Span :=
  checkObject fun members =>
    andThen
      (Prod.mk <$> required "start".toList checkNatural members
        <*> required "end".toList checkNatural members)
      fun (start, stop) =>
        if ordered : start ≤ stop then valid { start, stop, ordered }
        else fail (.reversedSpan start stop)

def Change.checkEvent : Json → Checked Unit
  | string value => if value = "BufferChange".toList then valid () else fail .unknownEvent
  | _ => fail .unknownEvent

def Change.ofJson : Json → Checked Change :=
  checkObject fun members =>
    (fun _ path oldPath diff predicted inOpenSource =>
        { path, oldPath, diff, predicted, inOpenSource })
      <$> optional "event".toList () checkEvent members
      <*> required "path".toList checkText members
      <*> required "old_path".toList checkText members
      <*> required "diff".toList checkText members
      <*> optional "predicted".toList false checkBool members
      <*> optional "in_open_source_repo".toList false checkBool members

def Related.Excerpt.ofJson : Json → Checked Related.Excerpt :=
  checkObject fun members =>
    (fun rows text => { rows, text })
      <$> required "row_range".toList Span.ofJson members
      <*> required "text".toList checkText members

def Related.File.ofJson : Json → Checked Related.File :=
  checkObject fun members =>
    (fun path maxRow excerpts inOpenSource => { path, maxRow, excerpts, inOpenSource })
      <$> required "path".toList checkText members
      <*> required "max_row".toList checkNatural members
      <*> optional "excerpts".toList [] (checkList Related.Excerpt.ofJson) members
      <*> optional "in_open_source_repo".toList false checkBool members

/-- Windows whose editable parts lie inside their contexts; the narrowest that does not is named. -/
def Windows.check (narrow medium wide : Window) : Checked Windows :=
  if narrow_nested : narrow.isNested = true then
    if medium_nested : medium.isNested = true then
      if wide_nested : wide.isNested = true then
        valid { narrow, medium, wide, narrow_nested, medium_nested, wide_nested }
      else fail (.notNested "editable_350".toList)
    else fail (.notNested "editable_180".toList)
  else fail (.notNested "editable_150".toList)

def Windows.ofJson : Json → Checked Windows :=
  checkObject fun members =>
    andThen
      ((fun narrow medium wide narrowContext mediumContext wideContext =>
          (Window.mk narrow narrowContext, Window.mk medium mediumContext,
            Window.mk wide wideContext))
        <$> required "editable_150".toList Span.ofJson members
        <*> required "editable_180".toList Span.ofJson members
        <*> required "editable_350".toList Span.ofJson members
        <*> required "editable_150_context_350".toList Span.ofJson members
        <*> required "editable_180_context_350".toList Span.ofJson members
        <*> required "editable_350_context_150".toList Span.ofJson members)
      fun (narrow, medium, wide) => check narrow medium wide

def PreferredModel.ofJson : Json → Checked PreferredModel
  | string value =>
    if value = "legacy".toList then valid .legacy
    else if value = "current".toList then valid .current
    else fail .unknownModel
  | _ => fail .unknownModel

namespace Request

def ofJson : Json → Checked Request :=
  checkObject fun members =>
    (fun path excerpt editable cursor startRow changes relatedFiles windows preferredModel
          inOpenSource =>
        { path, excerpt, editable, cursor, startRow, changes, relatedFiles, windows,
          preferredModel, inOpenSource })
      <$> required "cursor_path".toList checkText members
      <*> required "cursor_excerpt".toList checkText members
      <*> required "editable_range".toList Span.ofJson members
      <*> required "cursor_offset".toList checkNatural members
      <*> optional "excerpt_start_row".toList none (checkOptional checkInteger) members
      <*> optional "events".toList [] (checkList Change.ofJson) members
      <*> optional "related_files".toList [] (checkList Related.File.ofJson) members
      <*> optional "excerpt_ranges".toList none (checkOptional Windows.ofJson) members
      <*> optional "preferred_model".toList none (checkOptional PreferredModel.ofJson) members
      <*> optional "in_open_source_repo".toList false checkBool members

/-- How deep the JSON of a request may nest. -/
def nestingLimit : Nat := 200

/-- Checks what a JSON text holds. -/
def readJson (check : Json → Checked α) (text : Text) : Checked α :=
  match Json.read? nestingLimit text with
  | some json => check json
  | none => fail .notJson

def decode (text : Text) : Checked Request :=
  readJson ofJson text

end Request

end NextEdit
