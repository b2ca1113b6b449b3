import NextEdit.Text.Utf8
import NextEdit.Span

/-! Raw bytes that may or may not be UTF-8: the character boundaries in them, and checked slices.
On the UTF-8 form of a text they agree with the cuts of the text itself. -/
namespace NextEdit

abbrev Octets := List UInt8

namespace Octets

/-- Bytes `10xxxxxx` continue a character. -/
def isContinuation (byte : UInt8) : Bool :=
  0x80 ≤ byte && byte < 0xC0

/-- Whether the offset is inside the data and not in the middle of a character. -/
def isBoundary (data : Octets) (offset : Int) : Bool :=
  if offset = 0 ∨ offset = data.length then true
  else if offset < 0 then false
  else
    match data[offset.toNat]? with
    | some byte => !isContinuation byte
    | none => false

def boundaryBelow (data : Octets) : Nat → Nat
  | 0 => 0
  | offset + 1 =>
    if isBoundary data ((offset : Int) + 1) then offset + 1 else boundaryBelow data offset

/-- The last boundary at or below the offset, once that is moved into the data. -/
def lastBoundary (data : Octets) (offset : Int) : Nat :=
  boundaryBelow data (min offset.toNat data.length)

inductive SliceError
  | range (error : RangeError)
  | undecodable

def checkSlice (data : Octets) (subject : Text) (start stop : Int) : Except RangeError Unit :=
  checkBounds data.length (fun offset => isBoundary data offset) subject start stop

/-- The text of a range that fits, where its bytes are UTF-8. -/
def slice (data : Octets) (subject : Text) (start stop : Int) : Except SliceError Text :=
  match checkSlice data subject start stop with
  | .error error => .error (.range error)
  | .ok () =>
    match Text.decode ((data.drop start.toNat).take (stop.toNat - start.toNat)) with
    | some text => .ok text
    | none => .error .undecodable

end Octets

end NextEdit
