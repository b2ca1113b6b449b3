import NextEdit.Format
import NextEdit.Json.Basic
import NextEdit.Span

/-! What makes a command give up, and how that is reported: as a JSON object for machines, as a
message for people. -/
namespace NextEdit.CommandLine

inductive Failure
  | fileNotFound (source : Text)
  | notUtf8 (source : Text) (why : Option Text)
  | invalidRequest (source : Text) (why : Option Text)
  | formatNotFound (error : Format.SelectError)
  | invalidSpan (option value : Text)
  | doesNotFit (error : RangeError)
deriving DecidableEq

namespace Failure

/-- The reason behind a message, where one is told. -/
def because : Option Text → Text
  | some why => ": ".toList ++ why
  | none => []

def message : Failure → Text
  | fileNotFound source => "File not found: ".toList ++ source
  | notUtf8 _ why => "Input is not valid UTF-8".toList ++ because why
  | invalidRequest _ why => "Invalid prompt input".toList ++ because why
  | formatNotFound error => error.message
  | invalidSpan option value =>
    option ++ " expects START:END byte offsets, got '".toList ++ value ++ "'".toList
  | doesNotFit error => error.message

def code : Failure → Text
  | fileNotFound _ => "FILE_NOT_FOUND".toList
  | notUtf8 _ _ | invalidRequest _ _ => "INVALID_INPUT".toList
  | formatNotFound _ => "FORMAT_NOT_FOUND".toList
  | invalidSpan _ _ => "INVALID_RANGE".toList
  | doesNotFit _ => "ExcerptRangeError".toList

/-- What the user gave that is at fault; empty where there is no one such text. -/
def input : Failure → Text
  | fileNotFound source | notUtf8 source _ | invalidRequest source _ => source
  | formatNotFound error => error.name
  | invalidSpan _ value => value
  | doesNotFit _ => []

def suggestions : Failure → List Text
  | formatNotFound _ => Format.all.map Format.name
  | _ => []

def toJson (failure : Failure) : Json :=
  .object
    ([("status".toList, .string "error".toList),
        ("message".toList, .string failure.message),
        ("code".toList, .string failure.code)] ++
      (if failure.input.isEmpty then [] else [("input".toList, .string failure.input)]) ++
      (if failure.suggestions.isEmpty then []
        else [("suggestions".toList, .list (failure.suggestions.map .string))]))

/-- The message for people, with what they might have meant; `echo` is what a line comes to where it is
written. -/
def lines (echo : Text → Text) (failure : Failure) : Text :=
  echo ("Error: ".toList ++ failure.message ++ ['\n']) ++
    (if failure.suggestions.isEmpty then []
      else
        echo ("Suggestions: ".toList ++ Text.join ", ".toList failure.suggestions ++ ['\n']))

end Failure

end NextEdit.CommandLine
