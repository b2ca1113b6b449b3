import NextEdit.Json.Writer
import NextEdit.Numeral.Shortest
import NextEdit.Text.Blank
import NextEdit.Text.Search

/-! What the command line writes. Plain output drops terminal control sequences; machines read JSON
on one line, people indented JSON, tables and messages. -/
namespace NextEdit.Console

def isLetter (char : Char) : Bool :=
  ('a' ≤ char && char ≤ 'z') || ('A' ≤ char && char ≤ 'Z')

/-- A character that a terminal control sequence may hold in front of its letter. -/
def isMark (char : Char) : Bool :=
  char.isDigit || char == ';' || char == '?'

/-- The length of the terminal control sequence at the start of a text: escape, bracket, digits and
marks, one letter. -/
def controlLength : Text → Nat
  | '\x1b' :: '[' :: rest =>
    let marks := rest.takeWhile isMark
    match rest.drop marks.length with
    | final :: _ => if isLetter final then marks.length + 3 else 0
    | [] => 0
  | _ => 0

def withoutControls (text : Text) : Text :=
  Text.eraseEach controlLength text

/-- A message as it is written, without its control sequences. -/
def written (message : Text) : Text :=
  withoutControls message

def writtenLine (message : Text) : Text :=
  written (message ++ ['\n'])

/-- The length of the style tag at the start of a text: lowercase words in brackets. -/
def tagLength : Text → Nat
  | '[' :: rest =>
    let (slash, rest) :=
      match rest with
      | '/' :: rest => (1, rest)
      | rest => (0, rest)
    let words := rest.takeWhile fun char => ('a' ≤ char && char ≤ 'z') || char == ' '
    if !words.isEmpty && rest[words.length]? == some ']' then slash + words.length + 2 else 0
  | _ => 0

def withoutTags (text : Text) : Text :=
  Text.eraseEach tagLength text

/-- Something to print. -/
inductive Item
  /-- A message, in which tags may set a style. -/
  | message (text : Text)
  | flag (value : Bool)
  | integer (value : Int)
  | real (value : Json.Real)
  /-- What only people get to see, or nothing. -/
  | unseen

/-- The text of an item for machines. Blank messages, zeros and a flag that is off have none. -/
def Item.text? : Item → Option Text
  | message text =>
    let text := Text.trim Text.isPadding (withoutTags text)
    if text.isEmpty then none else some text
  | flag value => if value then some "True".toList else none
  | integer value => if value = 0 then none else some (Numeral.ofInt value)
  | real value => if value.isZero then none else some value.text
  | unseen => none

/-- An item as machines get it. -/
def Item.plain (item : Item) : Text :=
  match item.text? with
  | some text => writtenLine text
  | none => []

/-- Who reads the output. -/
inductive Mode
  | machine
  | human
deriving DecidableEq

/-- JSON, on one line for machines. -/
def json (mode : Mode) (value : Json) : Text :=
  match mode with
  | .machine => writtenLine (value.write .ascii)
  | .human => writtenLine (value.write .indented)

/-- A table as rows of cells. -/
structure Table where
  title : Text
  columns : List Text
  rows : List (List Text)

def Table.lines (table : Table) : Text :=
  let line (cells : List Text) := Text.join ['|'] cells ++ ['\n']
  table.title ++ ['\n'] ++ line table.columns ++ table.rows.flatMap line

/-- A text in single quotes, newlines and quotes escaped. -/
def quoted (text : Text) : Text :=
  let escape (char : Char) : Text :=
    match char with
    | '\n' => ['\\', 'n']
    | '\\' => ['\\', '\\']
    | '\x27' => ['\\', '\x27']
    | char => [char]
  ['\x27'] ++ text.flatMap escape ++ ['\x27']

end NextEdit.Console
