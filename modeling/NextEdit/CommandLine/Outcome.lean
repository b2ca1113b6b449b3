import NextEdit.Octets

/-! What comes of a run: how it ends, and what it writes. -/
namespace NextEdit.CommandLine

/-- How a run ends. A run crashes on a directory where a file should be, and where it has to encode what
stray bytes left of a text. -/
inductive Ending
  | done
  | failed
  | collision
  | misused
  | crashed
  | unencodable
deriving DecidableEq

def Ending.exitCode : Ending → Nat
  | done => 0
  | failed | crashed | unencodable => 1
  | collision | misused => 2

structure Outcome where
  ending : Ending
  /-- Bytes written in front of `stdout`, up to the last stray one of the input. -/
  passed : Octets := []
  stdout : Text := []
  stderr : Text := []
  /-- Log entries, which go to the error output of a verbose run. -/
  log : List Text := []
deriving DecidableEq

end NextEdit.CommandLine
