import NextEdit.CommandLine.Options
import NextEdit.CommandLine.World

/-! Commands as the command line spells them, and the one way to misspell them: usage errors. -/
namespace NextEdit.CommandLine

/-- A command with its options. `source` is a file, or `-` for standard input. -/
inductive Command
  | render (source : Text) (format : Option Text) (maxTokens : Option Int) (stats asJson : Bool)
  | prefill (source : Text) (format : Option Text)
  | clean (source : Text) (format : Option Text) (legacy : Bool)
  | checkTokens (source : Text) (format : Option Text)
  | legacy (source : Text) (editable context : Option Text)
  | version
  | formats (asJson : Bool)
  | config
deriving DecidableEq

/-- The file that a command reads. -/
def Command.source? : Command → Option Text
  | render source _ _ _ _ | prefill source _ | clean source _ _ | checkTokens source _
  | legacy source _ _ => some source
  | version | formats _ | config => none

/-- What the arguments behind a command's name ask for. -/
inductive Asked
  | help
  | command (command : Command)
deriving DecidableEq

/-- What a command line asks for. -/
inductive Call
  | help
  | completion (completion : Completion)
  | run (human verbose : Bool) (command : Command)
deriving DecidableEq

inductive OptionKey
  | help
  | human
  | verbose
  | format
  | maxTokens
  | stats
  | asJson
  | legacy
  | editable
  | context
  | installCompletion
  | showCompletion
deriving DecidableEq

namespace OptionKey

def spec : OptionKey → OptionSpec OptionKey
  | help => { key := help, long := "--help".toList, takesValue := false }
  | human => { key := human, long := "--human".toList, short := some 'H', takesValue := false }
  | verbose =>
    { key := verbose, long := "--verbose".toList, short := some 'v', takesValue := false }
  | format => { key := format, long := "--format".toList, short := some 'f', takesValue := true }
  | maxTokens =>
    { key := maxTokens, long := "--max-tokens".toList, short := some 't', takesValue := true }
  | stats => { key := stats, long := "--stats".toList, takesValue := false }
  | asJson => { key := asJson, long := "--json".toList, takesValue := false }
  | legacy => { key := legacy, long := "--legacy".toList, takesValue := false }
  | editable => { key := editable, long := "--editable".toList, takesValue := true }
  | context => { key := context, long := "--context".toList, takesValue := true }
  | installCompletion =>
    { key := installCompletion, long := "--install-completion".toList, takesValue := false }
  | showCompletion =>
    { key := showCompletion, long := "--show-completion".toList, takesValue := false }

/-- What an option in front of a command asks for instead of it. -/
def call? : OptionKey → Option Call
  | help => some .help
  | installCompletion => some (.completion .install)
  | showCompletion => some (.completion .script)
  | _ => none

end OptionKey

/-- A budget as an option gives it. -/
def Host.budget? (host : Host) (text : Text) : Option Int :=
  (host.readInteger text).filter fun value => 0 ≤ value

/-- Reads the arguments of a command with one operand. -/
def readSourced (keys : List OptionKey) (arguments : List Text)
    (build : Text → Given OptionKey → Option Command) : Option Asked := do
  let (given, operands) ← readArguments ((OptionKey.help :: keys).map OptionKey.spec) true arguments
  if given.has .help then return .help
  match operands with
  | [source] => return .command (← build source given)
  | _ => none

/-- Reads the arguments of a command without operands. -/
def readBare (keys : List OptionKey) (arguments : List Text)
    (build : Given OptionKey → Command) : Option Asked := do
  let (given, operands) ← readArguments ((OptionKey.help :: keys).map OptionKey.spec) true arguments
  if given.has .help then return .help
  if operands.isEmpty then return .command (build given) else none

/-- Reads the arguments of the command of a name. -/
def readCommand (host : Host) (name : Text) (arguments : List Text) : Option Asked :=
  if name = "render".toList then
    readSourced [.format, .maxTokens, .stats, .asJson] arguments fun source given =>
      match given.value? .maxTokens with
      | none =>
        some
          (.render source (given.value? .format) none (given.has .stats) (given.has .asJson))
      | some text =>
        (host.budget? text).map fun budget =>
          .render source (given.value? .format) (some budget) (given.has .stats) (given.has .asJson)
  else if name = "prefill".toList then
    readSourced [.format] arguments fun source given =>
      some (.prefill source (given.value? .format))
  else if name = "clean".toList then
    readSourced [.format, .legacy] arguments fun source given =>
      some (.clean source (given.value? .format) (given.has .legacy))
  else if name = "check-tokens".toList then
    readSourced [.format] arguments fun source given =>
      some (.checkTokens source (given.value? .format))
  else if name = "legacy".toList then
    readSourced [.editable, .context] arguments fun source given =>
      some (.legacy source (given.value? .editable) (given.value? .context))
  else if name = "version".toList then readBare [] arguments fun _ => .version
  else if name = "formats".toList then
    readBare [.asJson] arguments fun given => .formats (given.has .asJson)
  else if name = "config".toList then readBare [] arguments fun _ => .config
  else none

/-- The options in front of a command. -/
def Host.mainKeys (host : Host) : List OptionKey :=
  [.help, .human, .verbose] ++
    if host.offersCompletion then [.installCompletion, .showCompletion] else []

/-- Reads a command line; `none` is a usage error. Options in front of the command apply to all
commands, unless one of them asks for something else. -/
def readCall (host : Host) (arguments : List Text) : Option Call := do
  let (given, operands) ← readArguments (host.mainKeys.map OptionKey.spec) false arguments
  match given.findSome? fun (key, _) => key.call? with
  | some call => return call
  | none =>
    match operands with
    | [] => none
    | name :: rest =>
      match ← readCommand host name rest with
      | .command command => return .run (given.has .human) (given.has .verbose) command
      | .help => return .help

/-- What a command line asks for in a world; a shell that completes it comes first. -/
def World.asked (world : World) (arguments : List Text) : Option Call :=
  match world.instruction? with
  | some instruction => some (.completion (.instructed instruction))
  | none => readCall world.host arguments

end NextEdit.CommandLine
