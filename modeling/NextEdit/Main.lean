import NextEdit.CommandLine.Run

/-! The program: it looks at the world that the command line names, runs the command line, and
writes the outcome. -/
namespace NextEdit

open CommandLine

/-- The environment variables that the program looks at. -/
def variableNames : List String :=
  ["EDITPROMPT_MAX_PROMPT_TOKENS", "EDITPROMPT_LEGACY_MAX_EVENT_TOKENS",
    "EDITPROMPT_DEFAULT_FORMAT", "EDITPROMPT_HUMAN_MODE"]

def readEnvironment : IO Environment :=
  variableNames.filterMapM fun name => do
    return (← IO.getEnv name).map fun value => (name.toList, value.toList)

/-- The file that a command line reads. -/
def sourceOf (host : Host) (arguments : List Text) : Option Text :=
  match readCall host arguments with
  | some (.run _ _ command) => command.source?
  | _ => none

/-- The plain host, with the terminals of the process. -/
def readHost : IO Host := do
  let output ← (← IO.getStdout).isTty
  let error ← (← IO.getStderr).isTty
  return { Host.plain with isTerminal := fun stream => if stream = .output then output else error }

partial def readAll (stream : IO.FS.Stream) (sofar : ByteArray) : IO ByteArray := do
  let chunk ← stream.read 65536
  if chunk.isEmpty then return sofar else readAll stream (sofar ++ chunk)

/-- The error number that says "is a directory". -/
def directoryErrno : UInt32 := 21

/-- What stands behind a path, as far as opening it tells. -/
def readEntry (path : String) : IO Entry := do
  try
    return .file (← IO.FS.readBinFile (if path.isEmpty then "." else path)).toList
  catch
    | .inappropriateType _ errno _ =>
      return if errno == directoryErrno then .directory else .missing
    | _ => return .missing

end NextEdit

open NextEdit CommandLine in
def main (arguments : List String) : IO UInt32 := do
  let arguments := arguments.map String.toList
  let host ← readHost
  let source := sourceOf host arguments
  let stdin ← if source = some ['-'] then readAll (← IO.getStdin) .empty else pure .empty
  let entry ←
    match source with
    | some path => readEntry (String.ofList path)
    | none => pure .missing
  let outcome :=
    run arguments
      { environment := ← readEnvironment, stdin := stdin.toList, lookup := fun _ => entry, host }
  let stdout ← IO.getStdout
  stdout.write (ByteArray.mk outcome.passed.toArray)
  stdout.putStr (String.ofList outcome.stdout)
  stdout.flush
  for line in outcome.log do
    IO.eprintln (String.ofList line)
  IO.eprint (String.ofList outcome.stderr)
  return outcome.ending.exitCode.toUInt32
