import NextEdit.Proofs.CommandLine.Render
import NextEdit.Proofs.CommandLine.Stops

/-! Runs that fail, as machines see them. A run fails exactly where its command stops, if it has one; it
then writes one line, the report of the failure, and nothing at all only where it crashes. -/
namespace NextEdit.CommandLine

namespace Failure

variable (failure : Failure)

/-- What a report adds to the message: what is at fault, and what might have been meant. -/
def details : List (Text × Json) :=
  (if failure.input.isEmpty then [] else [("input".toList, .string failure.input)]) ++
    (if failure.suggestions.isEmpty then []
      else [("suggestions".toList, .list (failure.suggestions.map .string))])

end Failure

variable {arguments : List Text} {world : World}

/-- A stray byte in a legacy answer is reported, or crashes the run where standard input passes it. -/
example :
    let endingWith (passesStray : Bool) : Ending :=
      (run ["clean".toList, ['-'], "--legacy".toList]
        { World.piped [] with stdin := [0xFF], host := { Host.plain with passesStray } }).ending
    endingWith false = .failed ∧ endingWith true = .unencodable := by
  decide +kernel

end NextEdit.CommandLine
