import NextEdit.Proofs.CommandLine.Source

/-! Why a command stops. The causes are listed as a relation between a command, the world that it
reads and the settings; a command stops exactly where it has one, at the first that is met. -/
namespace NextEdit.CommandLine

namespace Command

/-- Whether what a command reads is a request. -/
def readsRequest : Command → Bool
  | render _ _ _ _ _ | prefill _ _ | checkTokens _ _ | legacy _ _ _ => true
  | clean _ _ _ | version | formats _ | config => false

/-- The name of the format that a command needs; without a name it is the default one. -/
def formatName? : Command → Option (Option Text)
  | render _ name _ _ _ | prefill _ name | clean _ name false | checkTokens _ name => some name
  | formats _ => some none
  | clean _ _ true | legacy _ _ _ | version | config => none

/-- What a command reads is there and, where it has to be one, a request. -/
def IsSupplied (command : Command) (world : World) : Prop :=
  ∀ source ∈ command.source?, (∃ content, world.Reads source content) ∧
    (command.readsRequest = true → ∃ request, world.Asks source request)

/-- Why a command stops. Each cause supposes that those met before it do not hold. -/
inductive Stops (world : World) (settings : Settings) : Command → Stop → Prop
  | unread (reads : command.source? = some source) (withheld : world.Withholds source stop) :
    Stops world settings command stop
  | undecoded (reads : command.source? = some source) (decodes : command.readsRequest = true)
    (read : world.Reads source content) (unspelt : requestOf? content = none) :
    Stops world settings command
      (.failure (.invalidRequest source (world.host.whyInvalid content)))
  | unencodable (passed : world.Passes source parts) :
    Stops world settings (.clean source name true) .unencodable
  | unnamed (supplied : command.IsSupplied world) (needs : command.formatName? = some name)
    (refused : Format.select (name.getD settings.defaultFormat) = .error error) :
    Stops world settings command (.failure (.formatNotFound error))
  | prompt (asked : world.Asks source request)
    (chosen : Format.select (name.getD settings.defaultFormat) = .ok format)
    (unfit : request.prompt format (budget.getD settings.maxPromptTokens) = .error error) :
    Stops world settings (.render source name budget stats asJson) (.failure (.doesNotFit error))
  | promptPrefill (asked : world.Asks source request)
    (chosen : Format.select (name.getD settings.defaultFormat) = .ok format)
    (fits : request.prompt format (budget.getD settings.maxPromptTokens) = .ok assembled)
    (unfit : request.prefill format = .error error) :
    Stops world settings (.render source name budget stats asJson) (.failure (.doesNotFit error))
  | prefill (asked : world.Asks source request)
    (chosen : Format.select (name.getD settings.defaultFormat) = .ok format)
    (unfit : request.prefill format = .error error) :
    Stops world settings (.prefill source name) (.failure (.doesNotFit error))
  | editable (asked : world.Asks source request) (misspelt : spanOfText? value = none) :
    Stops world settings (.legacy source (some value) context)
      (.failure (.invalidSpan "--editable".toList value))
  | context (asked : world.Asks source request)
    (first : editable.map spanOfText? = Option.map some cutEditable)
    (misspelt : spanOfText? value = none) :
    Stops world settings (.legacy source editable (some value))
      (.failure (.invalidSpan "--context".toList value))
  | legacy (asked : world.Asks source request)
    (first : editable.map spanOfText? = Option.map some cutEditable)
    (second : context.map spanOfText? = Option.map some cutContext)
    (unfit : Legacy.prompt request cutEditable cutContext = .error error) :
    Stops world settings (.legacy source editable context) (.failure (.doesNotFit error))

variable {world : World} {settings : Settings} {command : Command} {source : Text} {request : Request}
  {stop : Stop}

/-- Only what a command is given to read can be a directory. -/
theorem Stops.directory (stops : command.Stops world settings .isDirectory) :
    ∃ source, command.source? = some source ∧ source ≠ ['-'] ∧ world.lookup source = .directory := by
  cases stops with
  | unread reads withheld =>
    cases withheld with
    | directory named found => exact ⟨_, reads, named, found⟩

/-- Only a legacy answer has to be encoded. -/
theorem Stops.passes (stops : command.Stops world settings .unencodable) :
    ∃ source name parts, command = .clean source name true ∧ world.Passes source parts := by
  cases stops with
  | unread reads withheld => cases withheld
  | unencodable passed => exact ⟨_, _, _, rfl, passed⟩

/-- A cause stops the command, whoever reads its output. -/
theorem Stops.result (stops : command.Stops world settings stop) (mode : Console.Mode) :
    (runCommand world settings mode command).result = .error stop := by
  cases stops with
  | unread reads withheld =>
    have unread := result_readSource_of_withholds withheld
    have unloaded := settled_loadRequest.fails (.unread withheld)
    cases command with
    | clean source name isLegacy =>
      cases reads
      exact Attempt.result_bind_of_error unread _
    | _ => cases reads <;> exact Attempt.result_bind_of_error unloaded _
  | undecoded reads decodes read unspelt =>
    have unloaded := settled_loadRequest.fails (.unspelt read unspelt)
    cases command <;> cases decodes <;> cases reads <;>
      exact Attempt.result_bind_of_error unloaded _
  | unencodable passed =>
    rw [runCommand, cleanReply, Attempt.result_bind_of_ok (result_readSource (.loose passed))]
    rfl
  | unnamed supplied needs refused =>
    have unselected := result_selectFormat_eq_error_iff.mpr ⟨_, refused, rfl⟩
    -- A command selects its format once it has what it reads.
    have unformatted {α : Type} {first : Attempt α} {value : α} {next : α → Format → Attempt Reply}
        (gets : first.result = .ok value) :
        (do let value ← first; let format ← selectFormat settings _; next value format).result = _ :=
      (Attempt.result_bind_of_ok gets _).trans (Attempt.result_bind_of_error unselected _)
    cases command with
    | clean source name isLegacy =>
      cases isLegacy <;> cases needs
      obtain ⟨content, read⟩ := (supplied source rfl).1
      exact unformatted (result_readSource read)
    | formats asJson =>
      cases needs
      exact Attempt.result_bind_of_error unselected _
    | version | config | legacy source editable context => cases needs
    | render source name budget stats asJson | prefill source name | checkTokens source name =>
      cases needs
      obtain ⟨request, asked⟩ := (supplied source rfl).2 rfl
      exact unformatted (result_loadRequest asked)
  | prompt asked chosen unfit =>
    rw [runCommand, renderReply, result_bind_of_asks asked,
      Attempt.result_bind_of_ok (result_selectFormat chosen), unfit]
    rfl
  | promptPrefill asked chosen fits unfit =>
    rw [runCommand, renderReply, result_bind_of_asks asked,
      Attempt.result_bind_of_ok (result_selectFormat chosen), fits, unfit]
    rfl
  | prefill asked chosen unfit =>
    rw [runCommand, prefillReply, result_bind_of_asks asked,
      Attempt.result_bind_of_ok (result_selectFormat chosen), unfit]
    rfl
  | editable asked misspelt =>
    rw [runCommand, legacyReply, result_bind_of_asks asked]
    exact Attempt.result_bind_of_error
      (result_readSpan_eq_error_iff.mpr ⟨_, rfl, misspelt, rfl⟩) _
  | context asked first misspelt =>
    rw [runCommand, legacyReply, result_bind_of_asks asked,
      Attempt.result_bind_of_ok (result_readSpan_eq_ok_iff.mpr first)]
    exact Attempt.result_bind_of_error
      (result_readSpan_eq_error_iff.mpr ⟨_, rfl, misspelt, rfl⟩) _
  | legacy asked first second unfit =>
    rw [runCommand, legacyReply, result_bind_of_asks asked,
      Attempt.result_bind_of_ok (result_readSpan_eq_ok_iff.mpr first),
      Attempt.result_bind_of_ok (result_readSpan_eq_ok_iff.mpr second), unfit]
    rfl

end Command

end NextEdit.CommandLine
