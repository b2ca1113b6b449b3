import NextEdit.Numeral.Decimal

/-! Half-open spans, and the one check that every span into a text passes before it is used. -/
namespace NextEdit

/-- The span from `start` up to `stop`: bytes of a text, or rows of a file. -/
structure Span where
  start : Nat
  stop : Nat
  ordered : start ≤ stop := by omega
deriving DecidableEq

namespace Span

def length (span : Span) : Nat :=
  span.stop - span.start

def contains (outer inner : Span) : Bool :=
  outer.start ≤ inner.start && inner.stop ≤ outer.stop

/-- The span that starts and stops at one offset. -/
def point (offset : Nat) : Span where
  start := offset
  stop := offset

/-- The offsets `start..stop` as a span, when they are one. -/
def ofInts? (start stop : Int) : Option Span :=
  if proper : 0 ≤ start ∧ start ≤ stop then
    some { start := start.toNat, stop := stop.toNat, ordered := by omega }
  else none

/-- `start..stop`, as messages write a span. -/
def bounds (start stop : Int) : Text :=
  Numeral.ofInt start ++ "..".toList ++ Numeral.ofInt stop

end Span

/-- Why offsets do not fit the text they index. -/
inductive RangeFault
  | reversed
  | pastEnd
  | splitsCharacter
  | outsideContext (context : Span)
  | outsideEditable (editable : Span)
deriving DecidableEq

namespace RangeFault

def message : RangeFault → Text
  | reversed => "range is reversed or negative".toList
  | pastEnd => "range extends past the end of the text".toList
  | splitsCharacter => "range is not on a character boundary".toList
  | outsideContext context =>
    "not inside context range ".toList ++ Span.bounds context.start context.stop
  | outsideEditable editable =>
    "cursor is outside the editable range ".toList ++ Span.bounds editable.start editable.stop

end RangeFault

/-- Offsets that do not fit a text of `length` bytes; `subject` names what they stand for. -/
structure RangeError where
  subject : Text
  start : Int
  stop : Int
  length : Nat
  fault : RangeFault
deriving DecidableEq

def RangeError.message (error : RangeError) : Text :=
  "Invalid ".toList ++ error.subject ++ " ".toList ++ Span.bounds error.start error.stop ++
    " for text of ".toList ++ Numeral.ofNat error.length ++ " bytes: ".toList ++
    error.fault.message

/-- Checks `start..stop` against a text of `length` bytes whose character boundaries are given:
first the order, then the end, then the boundaries. -/
def checkBounds (length : Nat) (isBoundary : Nat → Bool) (subject : Text) (start stop : Int) :
    Except RangeError Unit :=
  let fail fault := .error { subject, start, stop, length, fault }
  if start < 0 ∨ stop < start then fail .reversed
  else if length < stop then fail .pastEnd
  else if isBoundary start.toNat && isBoundary stop.toNat then .ok ()
  else fail .splitsCharacter

namespace Text

def checkSpan (text : Text) (subject : Text) (span : Span) : Except RangeError Unit :=
  checkBounds (byteCount text) (isBoundary text) subject span.start span.stop

/-- The text of a span that fits. -/
def slice (text : Text) (subject : Text) (span : Span) : Except RangeError Text := do
  checkSpan text subject span
  return between span.start span.stop text

end Text

end NextEdit
