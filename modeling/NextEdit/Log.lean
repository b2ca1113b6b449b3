import NextEdit.Settings

/-! The log: how severe an entry is, and from which severity on entries reach the console. The log
is set up once; later set-ups count only when forced. -/
namespace NextEdit

inductive Level
  | trace
  | debug
  | info
  | success
  | warning
  | error
  | critical
deriving DecidableEq

namespace Level

def severity : Level → Nat
  | trace => 5
  | debug => 10
  | info => 20
  | success => 25
  | warning => 30
  | error => 40
  | critical => 50

def ofName? (name : Text) : Option Level :=
  [("TRACE", trace), ("DEBUG", debug), ("INFO", info), ("SUCCESS", success), ("WARNING", warning),
    ("ERROR", error), ("CRITICAL", critical)].findSome? fun (known, level) =>
      if known.toList = name then some level else none

end Level

/-- `least` is the least level that reaches the console; without one, nothing does. -/
structure Log where
  isSetUp : Bool
  least : Option Level
deriving DecidableEq

namespace Log

/-- Set up, and silent. -/
def silent : Log where
  isSetUp := true
  least := none

/-- Sets the log up. Unless told whether to be silent, it asks the environment. -/
def setUp (log : Log) (environment : Environment) (level : Level) (suppress : Option Bool)
    (force : Bool) : Log :=
  if log.isSetUp && !force then log
  else
    let suppress := suppress.getD (environment.isOn "EDITPROMPT_MACHINE_MODE".toList)
    { isSetUp := true, least := if suppress then none else some level }

/-- Whether an entry reaches the console. -/
def shows (log : Log) (level : Level) : Bool :=
  match log.least with
  | some least => least.severity ≤ level.severity
  | none => false

end Log

end NextEdit
