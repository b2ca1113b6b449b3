import NextEdit.Octets

/-! Bytes that are not UTF-8, read as far as they are a text. A stray byte is part of no character; it
is kept between the texts around it, and written as it was read. -/
namespace NextEdit

/-- A text that stray bytes break off. -/
structure Loose where
  /-- Each stray byte, with the text in front of it. -/
  broken : List (Text × UInt8)
  last : Text
deriving DecidableEq

namespace Loose

def push (char : Char) : Loose → Loose
  | { broken := [], last } => { broken := [], last := char :: last }
  | { broken := (text, byte) :: rest, last } =>
    { broken := (char :: text, byte) :: rest, last }

/-- The character that data starts with, and how many bytes it takes behind the first. -/
def leading? (data : Octets) : Option (Char × Nat) :=
  [0, 1, 2, 3].findSome? fun more =>
    match Text.decode (data.take (more + 1)) with
    | some [char] => some (char, more)
    | _ => none

def decodeFrom : Nat → Octets → Loose
  | _, [] => { broken := [], last := [] }
  | skip + 1, _ :: rest => decodeFrom skip rest
  | 0, byte :: rest =>
    match leading? (byte :: rest) with
    | some (char, more) => (decodeFrom more rest).push char
    | none =>
      let loose := decodeFrom 0 rest
      { loose with broken := ([], byte) :: loose.broken }

/-- Reads characters where there are any, and stray bytes elsewhere. -/
def decode (data : Octets) : Loose :=
  decodeFrom 0 data

/-- Changes every text between stray bytes. -/
def map (change : Text → Text) (loose : Loose) : Loose where
  broken := loose.broken.map fun (text, byte) => (change text, byte)
  last := change loose.last

/-- The bytes up to the last stray one. -/
def lead (loose : Loose) : Octets :=
  loose.broken.flatMap fun (text, byte) => Text.encode text ++ [byte]

end Loose

/-- What is read from a source: a text, or what stray bytes leave of one. -/
inductive Content
  | text (text : Text)
  | loose (loose : Loose)
deriving DecidableEq

end NextEdit
