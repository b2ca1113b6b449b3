import NextEdit.Diff.Hunk
import NextEdit.Legacy.Answer
import NextEdit.Octets
import NextEdit.Request.Checked
import NextEdit.Text.Line

/-! Edits that turn one text into another: the changed lines, each change trimmed of what it shares
with its replacement at both ends. -/
namespace NextEdit.Diff

/-- Replaces the bytes `start..stop` with a text. -/
structure Edit where
  start : Int
  stop : Int
  text : Text
deriving DecidableEq

/-- How many items two sequences share at their start. -/
def sharedLength [BEq α] : List α → List α → Nat
  | left :: lefts, right :: rights => if left == right then sharedLength lefts rights + 1 else 0
  | _, _ => 0

/-- The edit of a change at a byte offset; the shared start is trimmed before the shared end. -/
def Edit.ofChange (offset : Int) (old new : Text) : Edit :=
  let lead := sharedLength old new
  let trail := sharedLength (old.drop lead).reverse (new.drop lead).reverse
  { start := offset + Text.byteCount (old.take lead)
    stop := offset + old.byteCount - Text.byteCount (old.drop (old.length - trail))
    text := (new.take (new.length - trail)).drop lead }

/-- Whether applying the edit leaves every text as it is. -/
def Edit.isIdle (edit : Edit) : Bool :=
  edit.start == edit.stop && edit.text.isEmpty

/-- The edits of the changes among hunks of lines, from a byte offset on. -/
def editsOf (offset : Int) : List (Hunk Text) → List Edit
  | [] => []
  | hunk :: rest =>
    let next := editsOf (offset + Text.byteCount hunk.old.flatten) rest
    match hunk with
    | .keep _ => next
    | .change old new =>
      let edit := Edit.ofChange offset old.flatten new.flatten
      if edit.isIdle then next else edit :: next

/-- The edits that turn `old`, which stands at a byte offset of a buffer, into `new`. -/
def edits (offset : Int) (old new : Text) : List Edit :=
  editsOf offset (hunks (Text.splitLines old) (Text.splitLines new))

/-- Applies edits to a buffer of which the first `done` bytes are settled. -/
def applyFrom (buffer : Octets) : (done : Nat) → List Edit → Octets
  | done, [] => buffer.drop done
  | done, edit :: rest =>
    (buffer.drop done).take (edit.start.toNat - done) ++ Text.encode edit.text ++
      applyFrom buffer edit.stop.toNat rest

/-- The buffer after edits that stand in order and apart, all of them counted in the buffer as it
was before the first. -/
def apply (edits : List Edit) (buffer : Octets) : Octets :=
  applyFrom buffer 0 edits

/-- An edit whose offsets are places in a buffer, and in order. -/
def Edit.check (edit : Edit) : Checked Edit :=
  let natural (name : String) (value : Int) : Checked Nat :=
    .within (.field name.toList) (if value < 0 then .fail .negative else .valid value.toNat)
  let offsets := Prod.mk <$> natural "start" edit.start <*> natural "end" edit.stop
  offsets.andThen fun (start, stop) =>
    if stop < start then .fail (.reversedSpan start stop) else .valid edit

/-- All edits, or what is wrong with the first that no buffer has a place for. -/
def checkEdits : List Edit → Checked (List Edit)
  | [] => .valid []
  | edit :: rest => edit.check.andThen fun edit => List.cons edit <$> checkEdits rest

/-- The edits that a legacy answer describes for the region `old`. -/
def legacyEdits (offset : Int) (answer old : Text) :
    Except Legacy.RepeatedMarker (List Edit) :=
  (Legacy.extract answer).map (edits offset old)

end NextEdit.Diff
