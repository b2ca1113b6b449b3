import NextEdit.Prompt
import NextEdit.Legacy.Instruction

/-! Settings from the environment, and the session that keeps them. A session reads the environment
once, at the first use of a setting, and holds on to what it read until it is reset. -/
namespace NextEdit

/-- Environment variables, each name at most once. -/
abbrev Environment := List (Text × Text)

namespace Environment

def get? (environment : Environment) (name : Text) : Option Text :=
  (environment.find? fun (key, _) => key == name).map Prod.snd

def unset (environment : Environment) (name : Text) : Environment :=
  environment.filter fun (key, _) => key != name

def set (environment : Environment) (name value : Text) : Environment :=
  (name, value) :: unset environment name

/-- A variable that holds an integer that is not negative. -/
def natural (environment : Environment) (name : Text) (default : Int) : Int :=
  match (environment.get? name).bind Numeral.integer? with
  | some value => if 0 ≤ value then value else default
  | none => default

/-- A variable that holds more than padding. -/
def word (environment : Environment) (name default : Text) : Text :=
  let value := Text.trim Text.isPadding ((environment.get? name).getD [])
  if value.isEmpty then default else value

/-- Whether a variable holds a word for yes. -/
def isOn (environment : Environment) (name : Text) : Bool :=
  Text.isAffirmative ((environment.get? name).getD [])

end Environment

/-- Budgets are whole numbers, below zero only where a caller sets them so. -/
structure Settings where
  maxPromptTokens : Int
  legacyMaxEventTokens : Int
  defaultFormat : Text
deriving DecidableEq

namespace Settings

def default : Settings where
  maxPromptTokens := 4096
  legacyMaxEventTokens := 500
  defaultFormat := Format.default.name

def ofEnvironment (environment : Environment) : Settings where
  maxPromptTokens :=
    environment.natural "EDITPROMPT_MAX_PROMPT_TOKENS".toList default.maxPromptTokens
  legacyMaxEventTokens :=
    environment.natural "EDITPROMPT_LEGACY_MAX_EVENT_TOKENS".toList default.legacyMaxEventTokens
  defaultFormat := environment.word "EDITPROMPT_DEFAULT_FORMAT".toList default.defaultFormat

end Settings

/-- One setting with the value to give it. -/
inductive Assignment
  | maxPromptTokens (value : Int)
  | legacyMaxEventTokens (value : Int)
  | defaultFormat (value : Text)
deriving DecidableEq

def Assignment.apply : Assignment → Settings → Settings
  | maxPromptTokens value, settings => { settings with maxPromptTokens := value }
  | legacyMaxEventTokens value, settings => { settings with legacyMaxEventTokens := value }
  | defaultFormat value, settings => { settings with defaultFormat := value }

/-- Why a request gives no prompt. -/
inductive PromptError
  | format (error : Format.SelectError)
  | range (error : RangeError)
deriving DecidableEq

/-- The environment as it stands, and the settings once they are read. -/
structure Session where
  environment : Environment := []
  kept : Option Settings := none
deriving DecidableEq

namespace Session

/-- The settings in force, read from the environment where none are kept. -/
def settings (session : Session) : Settings :=
  session.kept.getD (Settings.ofEnvironment session.environment)

/-- The session after a use of its settings. -/
def used (session : Session) : Session :=
  { session with kept := some session.settings }

def setVariable (session : Session) (name value : Text) : Session :=
  { session with environment := session.environment.set name value }

def unsetVariable (session : Session) (name : Text) : Session :=
  { session with environment := session.environment.unset name }

def reset (session : Session) : Session :=
  { session with kept := none }

/-- Changes one setting that is in force. -/
def assign (session : Session) (assignment : Assignment) : Session :=
  { session with kept := some (assignment.apply session.settings) }

/-- Assembles a prompt; only without an explicit budget are the settings used. -/
def prompt (session : Session) (request : Request) (format : Format) (maxTokens : Option Int) :
    Except RangeError Prompt × Session :=
  match maxTokens with
  | some budget => (request.prompt format budget, session)
  | none => (request.prompt format session.settings.maxPromptTokens, session.used)

/-- The text of a prompt within the budget in force. -/
def textIn (session : Session) (request : Request) (format : Format) :
    Except PromptError Text × Session :=
  let (prompt, session) := session.prompt request format none
  (match prompt with
    | .ok prompt => .ok prompt.text
    | .error error => .error (.range error), session)

/-- The prompt text in a format, or else in the default one; the name of that is a setting. -/
def formatted (session : Session) (request : Request) (format : Option Format) :
    Except PromptError Text × Session :=
  match format with
  | some format => session.textIn request format
  | none =>
    match Format.select session.settings.defaultFormat with
    | .error error => (.error (.format error), session.used)
    | .ok format => session.used.textIn request format

/-- The prompt text in a format that is given by its name. -/
def promptText (session : Session) (request : Request) (formatName : Option Text) :
    Except PromptError Text × Session :=
  match formatName.map Format.select with
  | none => session.formatted request none
  | some (.ok format) => session.formatted request (some format)
  | some (.error error) => (.error (.format error), session)

/-- The newest changes for the legacy prompt, within an explicit budget or the one in force. -/
def legacyHistory (session : Session) (changes : List Change) (maxTokens : Option Int) :
    (Text × Nat) × Session :=
  match maxTokens with
  | some budget => (Legacy.historyWithin budget changes, session)
  | none => (Legacy.historyWithin session.settings.legacyMaxEventTokens changes, session.used)

end Session

end NextEdit
