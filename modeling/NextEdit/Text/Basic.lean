/-! Text as a list of characters, measured in UTF-8 bytes. A byte offset need not fall between two
characters: `takeBytes` cuts at the last character boundary at or below an offset, and
`takeBytes_append_dropBytes` states that a cut loses nothing. -/
namespace NextEdit

abbrev Text := List Char

namespace Text

def byteCount : Text → Nat
  | [] => 0
  | char :: rest => char.utf8Size + byteCount rest

@[simp] theorem byteCount_nil : byteCount [] = 0 := rfl

@[simp] theorem byteCount_cons (char : Char) (rest : Text) :
    byteCount (char :: rest) = char.utf8Size + byteCount rest := rfl

@[simp] theorem byteCount_append (left right : Text) :
    byteCount (left ++ right) = byteCount left + byteCount right := by
  induction left with
  | nil => simp
  | cons char rest ih => simp [ih, Nat.add_assoc]

/-- The longest run of whole characters at the start of the text within `limit` bytes. -/
def takeBytes : Nat → Text → Text
  | _, [] => []
  | limit, char :: rest =>
    if char.utf8Size ≤ limit then char :: takeBytes (limit - char.utf8Size) rest else []

/-- What `takeBytes` leaves. -/
def dropBytes : Nat → Text → Text
  | _, [] => []
  | limit, char :: rest =>
    if char.utf8Size ≤ limit then dropBytes (limit - char.utf8Size) rest else char :: rest

theorem takeBytes_append_dropBytes (limit : Nat) (text : Text) :
    takeBytes limit text ++ dropBytes limit text = text := by
  induction text generalizing limit with
  | nil => rfl
  | cons char rest ih =>
    by_cases fits : char.utf8Size ≤ limit <;> simp [takeBytes, dropBytes, fits, ih]

theorem byteCount_takeBytes_le (limit : Nat) (text : Text) :
    byteCount (takeBytes limit text) ≤ limit := by
  induction text generalizing limit with
  | nil => simp [takeBytes]
  | cons char rest ih =>
    by_cases fits : char.utf8Size ≤ limit
    · have := ih (limit - char.utf8Size)
      simp only [takeBytes, fits, if_true, byteCount_cons]
      omega
    · simp [takeBytes, fits]

/-- Whether the offset falls between two characters, or at either end. -/
def isBoundary (text : Text) (offset : Nat) : Bool :=
  byteCount (takeBytes offset text) == offset

/-- The text between two byte offsets, each moved down to a character boundary. -/
def between (start stop : Nat) (text : Text) : Text :=
  takeBytes (stop - byteCount (takeBytes start text)) (dropBytes start text)

def endsLine (text : Text) : Bool :=
  text.getLast? == some '\n'

/-- Ends the text with a newline, adding one only where the text has none. -/
def closeLine (text : Text) : Text :=
  if endsLine text then text else text ++ ['\n']

theorem byteCount_le_closeLine (text : Text) : byteCount text ≤ byteCount (closeLine text) := by
  unfold closeLine
  split <;> simp

end Text

end NextEdit
