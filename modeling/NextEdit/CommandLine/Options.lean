import NextEdit.Text.Search

/-! Options of a command line. An option is written `--name value`, `--name=value`, `-n value` or
`-nvalue`; switches of one letter may share a dash, and `--` ends the options. -/
namespace NextEdit.CommandLine

/-- An option with its spellings; a switch takes no value. -/
structure OptionSpec (Key : Type) where
  key : Key
  long : Text
  short : Option Char := none
  takesValue : Bool

/-- Options in the order in which they were given; a switch has an empty value. -/
abbrev Given (Key : Type) := List (Key × Text)

/-- What one argument gives: options with their values, and an option that takes the next
argument as its value. -/
structure Reading (Key : Type) where
  given : Given Key
  open? : Option Key

variable {Key : Type}

/-- Reads letters that share a dash; the first that takes a value takes the rest. -/
def readLetters (specs : List (OptionSpec Key)) : Text → Option (Reading Key)
  | [] => some { given := [], open? := none }
  | letter :: rest => do
    let spec ← specs.find? fun spec => spec.short == some letter
    if spec.takesValue then
      if rest.isEmpty then return { given := [], open? := some spec.key }
      else return { given := [(spec.key, rest)], open? := none }
    else
      let reading ← readLetters specs rest
      return { reading with given := (spec.key, []) :: reading.given }

/-- Reads an argument that starts with a dash and is longer than it. -/
def readOption (specs : List (OptionSpec Key)) (argument : Text) : Option (Reading Key) :=
  let name := argument.takeWhile (· != '=')
  let value :=
    if name.length < argument.length then some (argument.drop (name.length + 1)) else none
  match specs.find? fun spec => spec.long == name with
  | some spec =>
    match value with
    | some value =>
      if spec.takesValue then some { given := [(spec.key, value)], open? := none } else none
    | none =>
      if spec.takesValue then some { given := [], open? := some spec.key }
      else some { given := [(spec.key, [])], open? := none }
  | none =>
    if ['-', '-'].isPrefixOf argument then none else readLetters specs (argument.drop 1)

/-- Options and operands; `none` where an option is unknown, lacks its value or takes none. With
`mixed`, options may follow operands; otherwise the first operand ends them. -/
def readArguments (specs : List (OptionSpec Key)) (mixed : Bool) :
    List Text → Option (Given Key × List Text)
  | [] => some ([], [])
  | argument :: rest =>
    if argument = ['-', '-'] then some ([], rest)
    else if argument.head? = some '-' ∧ 1 < argument.length then do
      let reading ← readOption specs argument
      match reading.open? with
      | none =>
        let (given, operands) ← readArguments specs mixed rest
        return (reading.given ++ given, operands)
      | some key =>
        match rest with
        | [] => none
        | value :: rest =>
          let (given, operands) ← readArguments specs mixed rest
          return (reading.given ++ (key, value) :: given, operands)
    else if mixed then do
      let (given, operands) ← readArguments specs mixed rest
      return (given, argument :: operands)
    else some ([], argument :: rest)

namespace Given

variable [BEq Key]

/-- The last value given to an option. -/
def value? (given : Given Key) (key : Key) : Option Text :=
  (given.reverse.find? fun (other, _) => other == key).map Prod.snd

def has (given : Given Key) (key : Key) : Bool :=
  given.any fun (other, _) => other == key

end Given

end NextEdit.CommandLine
