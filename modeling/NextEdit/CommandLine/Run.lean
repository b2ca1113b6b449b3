import NextEdit.CommandLine.Command
import NextEdit.CommandLine.Failure
import NextEdit.Legacy.Answer
import NextEdit.Log
import NextEdit.Payload
import NextEdit.Answer
import NextEdit.Request.Decode
import NextEdit.Text.Line

/-! Running a command line. A run reads the world and gives an outcome: an ending, and what is
written to the two outputs and to the log. -/
namespace NextEdit.CommandLine

open Console

/-- Why a command stops early: a failure to report, a directory where a file should be, or stray bytes
where a text has to be encoded. -/
inductive Stop
  | failure (failure : Failure)
  | isDirectory
  | unencodable
deriving DecidableEq

/-- A part of a command, with the log entries it leaves whether or not it gets through. -/
structure Attempt (α : Type) where
  log : List Text
  result : Except Stop α

namespace Attempt

def stop (cause : Stop) : Attempt α where
  log := []
  result := .error cause

def fail (failure : Failure) : Attempt α :=
  stop (.failure failure)

/-- Leaves an entry in the log. -/
def note (entry : Text) : Attempt Unit where
  log := [entry]
  result := .ok ()

instance : Monad Attempt where
  pure value := { log := [], result := .ok value }
  bind attempt next :=
    match attempt.result with
    | .ok value =>
      let rest := next value
      { log := attempt.log ++ rest.log, result := rest.result }
    | .error stop => { log := attempt.log, result := .error stop }

/-- Offsets that do not fit are a failure. -/
def ofFit : Except RangeError α → Attempt α
  | .ok value => pure value
  | .error error => fail (.doesNotFit error)

end Attempt

/-- What a command that gets through writes, and whether it met a collision. -/
structure Reply where
  passed : Octets := []
  stdout : Text := []
  stderr : Text := []
  collision : Bool := false

/-- All that a source holds, newlines unified. Files are always strict. -/
def readSource (world : World) (source : Text) : Attempt Content :=
  let decoded (passesStray : Bool) (data : Octets) : Attempt Content :=
    match Text.decode data with
    | some text => pure (.text (Text.unifyNewlines text))
    | none =>
      if passesStray then pure (.loose ((Loose.decode data).map Text.unifyNewlines))
      else .fail (.notUtf8 source (world.host.whyGarbled data))
  if source = ['-'] then decoded world.host.passesStray world.stdin
  else
    match world.lookup source with
    | .missing => .fail (.fileNotFound source)
    | .directory => .stop .isDirectory
    | .file data => decoded false data

/-- The request that content spells; none is spelled with stray bytes in it. -/
def requestOf? : Content → Option Request
  | .text payload =>
    match Request.decode payload with
    | .valid request => some request
    | .invalid _ => none
  | .loose _ => none

def loadRequest (world : World) (source : Text) : Attempt Request := do
  let content ← readSource world source
  match requestOf? content with
  | some request => return request
  | none => Attempt.fail (.invalidRequest source (world.host.whyInvalid content))

/-- The named format, or the one that the settings name. -/
def selectFormat (settings : Settings) (name : Option Text) : Attempt Format := do
  let name := name.getD settings.defaultFormat
  match Format.select name with
  | .ok format =>
    Attempt.note ("Parsed format name ".toList ++ quoted name ++ " as ".toList ++ format.name)
    return format
  | .error error => Attempt.fail (.formatNotFound error)

/-- The span that `START:END` spells. -/
def spanOfText? (text : Text) : Option Span :=
  match Text.splitAtChar ':' text with
  | [start, stop] => do Span.ofInts? (← Numeral.integer? start) (← Numeral.integer? stop)
  | _ => none

def readSpan (option : String) : Option Text → Attempt (Option Span)
  | none => pure none
  | some value =>
    match spanOfText? value with
    | some span => pure (some span)
    | none => .fail (.invalidSpan option.toList value)

/-- The account of a prompt as a table for people. -/
def accountingTable (prompt : Prompt) : Table :=
  let account := prompt.accounting
  let share (kept total : Nat) (noun : String) : Text :=
    Numeral.ofNat kept ++ ['/'] ++ Numeral.ofNat total ++ noun.toList
  { title := prompt.format.name ++ " token accounting".toList
    columns := ["Section".toList, "Tokens".toList, "Kept".toList]
    rows :=
      [["cursor".toList, Numeral.ofNat account.cursorTokens, "always".toList],
        ["edit history".toList, Numeral.ofNat account.historyTokens,
          share account.changesIncluded account.changesTotal " events"],
        ["related files".toList, Numeral.ofNat account.relatedTokens,
          share account.filesIncluded account.filesTotal " files"],
        ["total".toList, Numeral.ofNat account.totalTokens,
          "budget ".toList ++ Numeral.ofInt account.maxTokens]] }

/-- A prompt as text, with its account behind it or on the error output. -/
def replyWithPrompt (world : World) (mode : Mode) (stats : Bool) (prompt : Prompt) : Reply :=
  let shown := world.echo .output prompt.text
  match stats, mode with
  | false, _ => { stdout := shown }
  | true, .machine => { stdout := shown, stderr := json .machine prompt.accounting.toJson }
  | true, .human =>
    { stdout :=
        shown ++ ['\n'] ++ (accountingTable prompt).lines ++
          (if prompt.accounting.exceedsBudget then
            "Cursor section alone exceeds the budget\n".toList
          else []) }

def renderReply (world : World) (settings : Settings) (mode : Mode) (source : Text)
    (formatName : Option Text) (maxTokens : Option Int) (stats asJson : Bool) : Attempt Reply := do
  let request ← loadRequest world source
  let format ← selectFormat settings formatName
  let prompt ← Attempt.ofFit (request.prompt format (maxTokens.getD settings.maxPromptTokens))
  Attempt.note ("Assembled ".toList ++ format.name ++ " prompt: ".toList ++
    Numeral.ofNat prompt.accounting.totalTokens ++ " tokens".toList)
  let prefill ← Attempt.ofFit (request.prefill format)
  if asJson then return { stdout := json mode (prompt.toJsonWith prefill) }
  else return replyWithPrompt world mode stats prompt

def prefillReply (world : World) (settings : Settings) (source : Text) (formatName : Option Text) :
    Attempt Reply := do
  let request ← loadRequest world source
  let format ← selectFormat settings formatName
  let prefill ← Attempt.ofFit (request.prefill format)
  return { stdout := world.echo .output prefill }

/-- An answer cleaned for a format. An end marker has no stray byte in it, and neither has a control
sequence. -/
def replyWithAnswer (world : World) (format : Format) : Content → Reply
  | .text answer => { stdout := world.echo .output (format.cleanAnswer answer) }
  | .loose answer =>
    let shown := Loose.map (world.echo .output)
      { answer with last := format.cleanAnswer answer.last }
    { passed := shown.lead, stdout := shown.last }

/-- The region of a legacy answer, which is cut out of the bytes of its text. -/
def replyWithRegion (world : World) : Content → Attempt Reply
  | .text answer => return { stdout := world.echo .output (Legacy.regionWithCursor answer) }
  | .loose _ => .stop .unencodable

def cleanReply (world : World) (settings : Settings) (source : Text) (formatName : Option Text)
    (legacy : Bool) : Attempt Reply := do
  let answer ← readSource world source
  if legacy then replyWithRegion world answer
  else
    let format ← selectFormat settings formatName
    return replyWithAnswer world format answer

/-- The collisions of an excerpt, as JSON for machines and as lines for people. -/
def collisionReport (mode : Mode) (format : Format) (found : List Text) : Text :=
  match mode with
  | .machine =>
    json .machine
      (.object
        [("format".toList, .string format.name),
          ("contains_special_tokens".toList, .bool !found.isEmpty),
          ("tokens".toList, .list (found.map .string))])
  | .human =>
    if found.isEmpty then
      "No ".toList ++ format.name ++ " special tokens in excerpt\n".toList
    else
      "Excerpt contains ".toList ++ Numeral.ofNat found.length ++ " special token(s) of ".toList ++
        format.name ++ ":\n".toList ++
        found.flatMap fun token => "  ".toList ++ quoted token ++ ['\n']

def collisionReply (world : World) (settings : Settings) (mode : Mode) (source : Text)
    (formatName : Option Text) : Attempt Reply := do
  let request ← loadRequest world source
  let format ← selectFormat settings formatName
  let found := format.collisions request.excerpt
  return { stdout := collisionReport mode format found, collision := !found.isEmpty }

def legacyReply (world : World) (source : Text) (editable context : Option Text) :
    Attempt Reply := do
  let request ← loadRequest world source
  let editable ← readSpan "--editable" editable
  let context ← readSpan "--context" context
  let text ← Attempt.ofFit (Legacy.prompt request editable context)
  return { stdout := world.echo .output text }

def version : Text := "0.3.0".toList

def versionLine : Text :=
  "editprompt v".toList ++ version ++ ['\n']

/-- The catalog with the default format, as a table for people unless they ask for JSON. -/
def catalog (mode : Mode) (asJson : Bool) (default : Format) : Text :=
  if asJson ∨ mode = .machine then
    json mode
      (.object
        [("default".toList, .string default.name),
          ("formats".toList,
            .list (Format.all.map fun format =>
              .object
                [("name".toList, .string format.name),
                  ("special_tokens".toList, .list (format.reserved.map .string))]))])
  else
    { title := "Prompt formats".toList
      columns := ["Name".toList, "Default".toList, "Special tokens".toList]
      rows := Format.all.map fun format =>
        [format.name, if format = default then ['*'] else [],
          Text.join ['\n'] (format.reserved.map quoted)] : Table }.lines

def runCommand (world : World) (settings : Settings) (mode : Mode) : Command → Attempt Reply
  | .render source format maxTokens stats asJson =>
    renderReply world settings mode source format maxTokens stats asJson
  | .prefill source format => prefillReply world settings source format
  | .clean source format legacy => cleanReply world settings source format legacy
  | .checkTokens source format => collisionReply world settings mode source format
  | .legacy source editable context => legacyReply world source editable context
  | .version => pure { stdout := versionLine }
  | .formats asJson => do
    return { stdout := catalog mode asJson (← selectFormat settings none) }
  | .config => do
    Attempt.note "Reading budget configuration from environment".toList
    return { stdout := json mode settings.toJson }

/-- The outcome of a command that got through or stopped. -/
def settle (world : World) (mode : Mode) : Except Stop Reply → Outcome
  | .ok reply =>
    { ending := if reply.collision then .collision else .done
      passed := reply.passed
      stdout := reply.stdout
      stderr := reply.stderr }
  | .error .isDirectory => { ending := .crashed }
  | .error .unencodable => { ending := .unencodable }
  | .error (.failure failure) =>
    match mode with
    | .machine => { ending := .failed, stdout := json .machine failure.toJson }
    | .human => { ending := .failed, stderr := failure.lines (world.echo .error) }

/-- People read the output if an option or the environment says so. -/
def modeOf (world : World) (human : Bool) : Mode :=
  if human || world.environment.isOn "EDITPROMPT_HUMAN_MODE".toList then .human else .machine

/-- The log of a run: a verbose one shows all but traces. -/
def logOf (verbose : Bool) : Log :=
  if verbose then Log.silent.setUp [] .debug (some false) true else .silent

/-- Runs a command line. -/
def run (arguments : List Text) (world : World) : Outcome :=
  match world.asked arguments with
  | none => { ending := .misused, stderr := world.host.misuse arguments }
  | some .help => { ending := .done, stdout := world.host.help arguments }
  | some (.completion completion) => world.host.complete completion
  | some (.run human verbose command) =>
    let mode := modeOf world human
    let attempt := runCommand world (Settings.ofEnvironment world.environment) mode command
    { settle world mode attempt.result with
      log := if (logOf verbose).shows .debug then attempt.log else [] }

end NextEdit.CommandLine
