import NextEdit.Octets

/-! Occurrences of a marker in bytes, searched for and erased from left to right. -/
namespace NextEdit.Octets

/-- The offset of the first occurrence of `marker`. -/
def find? (marker : Octets) : Octets → Option Nat
  | [] => if marker.isEmpty then some 0 else none
  | byte :: rest =>
    if marker.isPrefixOf (byte :: rest) then some 0 else (find? marker rest).map (· + 1)

def eraseFrom (marker : Octets) : Nat → Octets → Octets
  | _, [] => []
  | skip + 1, _ :: rest => eraseFrom marker skip rest
  | 0, byte :: rest =>
    if marker.isPrefixOf (byte :: rest) then eraseFrom marker (marker.length - 1) rest
    else byte :: eraseFrom marker 0 rest

/-- The data without any occurrence of `marker` met from left to right. -/
def eraseAll (marker data : Octets) : Octets :=
  eraseFrom marker 0 data

end NextEdit.Octets
