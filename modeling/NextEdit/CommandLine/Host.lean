import NextEdit.CommandLine.Outcome
import NextEdit.Numeral.Lenient
import NextEdit.Text.Stray

/-! What the program leaves to its surroundings: to the parser of command lines, to the streams of the
process, and to the libraries that word what is wrong with an input. -/
namespace NextEdit.CommandLine

inductive Stream
  | output
  | error
deriving DecidableEq

/-- Shell completion. A parser of command lines may offer it, and then answers it by itself. -/
inductive Completion
  | install
  | script
  | instructed (instruction : Text)
deriving DecidableEq

/-- Everything about a run that is not the program's own. The streams are UTF-8 streams. -/
structure Host where
  /-- How the parser reads the integer that an option takes. Parsers agree on plain numerals and differ
  beyond: one takes `5.0` for an integer, another one digits of every script. -/
  readInteger : Text → Option Int
  /-- What the parser writes where a command line asks for help. -/
  help : List Text → Text
  /-- What the parser writes where it refuses a command line. -/
  misuse : List Text → Text
  offersCompletion : Bool
  complete : Completion → Outcome
  /-- Whether standard input passes bytes that are not UTF-8 through, and standard output as well,
  instead of refusing them. -/
  passesStray : Bool
  isTerminal : Stream → Bool
  /-- Why bytes are not UTF-8, in the words of the codec, if they are told. -/
  whyGarbled : Octets → Option Text
  /-- Why what was read spells no request, in the words of the reader, if they are told. -/
  whyInvalid : Content → Option Text

namespace Host

def usage : Text :=
  "Usage: editprompt [--human] [--verbose] COMMAND [ARGS]...\n".toList

/-- A host without terminals and shell completion, with strict streams and few words. -/
def plain : Host where
  readInteger := Numeral.integer?
  help _ := usage
  misuse _ := usage
  offersCompletion := false
  complete _ := { ending := .misused }
  passesStray := false
  isTerminal _ := false
  whyGarbled _ := none
  whyInvalid _ := none

/-- The plain host with another parser, which reads integers as requests do. -/
def lenient : Host :=
  { plain with readInteger := fun text => (Numeral.readLenient text).toOption }

end Host

end NextEdit.CommandLine
