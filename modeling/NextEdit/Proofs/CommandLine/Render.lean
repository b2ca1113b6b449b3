import NextEdit.Proofs.CommandLine.Host
import NextEdit.Proofs.CommandLine.Options
import NextEdit.Proofs.CommandLine.Source
import NextEdit.Proofs.Request.RoundTrip
import NextEdit.Proofs.Text.Octets

/-! Prompts on the command line. `render` ends well wherever there is a prompt with its prefill. As
JSON it gives the whole prompt; as text it drops the control sequences of the prompt, so the two differ
on a prompt that has any. -/
namespace NextEdit

theorem Format.select_name (format : Format) : select format.name = .ok format := by
  cases format <;> rfl

namespace CommandLine

section Asking

/-- What `render` is given besides its source. -/
def givenToRender (name : Option Text) (budget : Option Nat) (stats asJson : Bool) :
    Given OptionKey :=
  (name.map fun name => (.format, name)).toList ++
    (budget.map fun budget => (.maxTokens, Numeral.ofNat budget)).toList ++
    (if stats then [(.stats, [])] else []) ++ (if asJson then [(.asJson, [])] else [])

theorem OptionKey.spells_render : ∀ key ∈ [format, maxTokens, stats, asJson],
    key.spec.Spells key ([help, format, maxTokens, stats, asJson].map spec) := by
  intro key member
  simp only [List.mem_cons, List.not_mem_nil, or_false] at member
  rcases member with rfl | rfl | rfl | rfl <;>
    exact { named := rfl, found := rfl, dash := rfl, long := by decide, plain := by decide }

theorem known_givenToRender (name : Option Text) (budget : Option Nat) (stats asJson : Bool) :
    ∀ option ∈ givenToRender name budget stats asJson,
      option.1 ∈ [OptionKey.format, .maxTokens, .stats, .asJson] ∧
        (option.1.spec.takesValue = true ∨ option.2 = []) := by
  simp only [givenToRender, List.forall_mem_append]
  refine ⟨⟨⟨?_, ?_⟩, ?_⟩, ?_⟩
  · cases name <;> simp [OptionKey.spec]
  · cases budget <;> simp [OptionKey.spec]
  · cases stats <;> simp
  · cases asJson <;> simp

variable {host : Host} (reads : host.ReadsNumerals)
include reads

theorem readCommand_render (source : Text) (name : Option Text) (budget : Option Nat)
    (short : ∀ value ∈ budget, Numeral.IsShort value) (stats asJson : Bool) :
    readCommand host "render".toList
        (writeArguments OptionKey.spec (givenToRender name budget stats asJson) [source]) =
      some (.command (.render source name (budget.map Int.ofNat) stats asJson)) := by
  have known := known_givenToRender name budget stats asJson
  have parts : readArguments
      ([OptionKey.help, .format, .maxTokens, .stats, .asJson].map OptionKey.spec) true
      (writeArguments OptionKey.spec (givenToRender name budget stats asJson) [source]) =
        some (givenToRender name budget stats asJson, [source]) := by
    apply readArguments_writeArguments
    · exact fun option member => OptionKey.spells_render option.1 (known option member).1
    · exact fun option member => (known option member).2
  rw [readCommand, if_pos rfl, readSourced, parts]
  cases budget with
  | none => cases name <;> cases stats <;> cases asJson <;> rfl
  | some budget =>
    have holds := reads.budget?_ofNat (short budget rfl)
    cases name <;> cases stats <;> cases asJson <;>
      simp [givenToRender, Given.value?, Given.has, holds]

theorem readCall_render (source : Text) (name : Option Text) (budget : Option Nat)
    (short : ∀ value ∈ budget, Numeral.IsShort value) (stats asJson : Bool) :
    readCall host ("render".toList ::
        writeArguments OptionKey.spec (givenToRender name budget stats asJson) [source]) =
      some (.run false false (.render source name (budget.map Int.ofNat) stats asJson)) := by
  rw [readCall, readArguments_operand (by decide)]
  simp only [Option.bind_eq_bind, Option.bind_some, readCommand_render reads source name budget short]
  rfl

end Asking

/-- Every format and every budget can be asked for. -/
theorem World.asked_render {world : World} (alone : world.instruction? = none)
    (reads : world.host.ReadsNumerals) (source : Text) (name : Option Text) (budget : Option Nat)
    (short : ∀ value ∈ budget, Numeral.IsShort value) (stats asJson : Bool) :
    world.asked ("render".toList ::
        writeArguments OptionKey.spec (givenToRender name budget stats asJson) [source]) =
      some (.run false false (.render source name (budget.map Int.ofNat) stats asJson)) := by
  rw [World.asked_eq_readCall alone, readCall_render reads source name budget short]

/-- A prompt with its prefill, for the request that a source holds, in the format and within the
budget that are named or in force. -/
structure Rendering (world : World) (source : Text) (name : Option Text) (budget : Option Int) where
  content : Octets
  payload : Text
  request : Request
  format : Format
  prompt : Prompt
  prefill : Text
  held : world.Holds source content
  decodes : Text.decode content = some payload
  accepted : Request.decode payload = .valid request
  chosen : Format.select
    (name.getD (Settings.ofEnvironment world.environment).defaultFormat) = .ok format
  assembled : request.prompt format
    (budget.getD (Settings.ofEnvironment world.environment).maxPromptTokens) = .ok prompt
  prefilled : request.prefill format = .ok prefill

section Rendering

variable {world : World} {source : Text} {name : Option Text} {budget : Option Int}

theorem Rendering.asks (rendering : Rendering world source name budget) :
    world.Asks source rendering.request :=
  ⟨_, ⟨_, rendering.held, rendering.decodes⟩, rendering.accepted⟩

theorem Rendering.result_renderReply (rendering : Rendering world source name budget)
    (mode : Console.Mode) (stats asJson : Bool) :
    (renderReply world (Settings.ofEnvironment world.environment) mode source name budget stats
        asJson).result =
      .ok (if asJson then
          { stdout := Console.json mode (rendering.prompt.toJsonWith rendering.prefill) }
        else replyWithPrompt world mode stats rendering.prompt) := by
  simp only [renderReply, Attempt.result_bind, Attempt.result_note, Except.bind,
    result_loadRequest rendering.asks,
    result_selectFormat rendering.chosen, rendering.assembled, rendering.prefilled,
    Attempt.result_ofFit_ok]
  cases asJson <;> rfl

/-- What machines get to read. -/
theorem Rendering.run_machine (rendering : Rendering world source name budget)
    (asked : world.asked arguments =
      some (.run human verbose (.render source name budget stats asJson)))
    (machine : modeOf world human = .machine) :
    (run arguments world).ending = .done ∧ (run arguments world).passed = [] ∧
      (run arguments world).stdout =
        if asJson then (rendering.prompt.toJsonWith rendering.prefill).write .ascii ++ ['\n']
        else world.echo .output rendering.prompt.text := by
  have reply := rendering.result_renderReply .machine stats asJson
  cases asJson with
  | true => simp [run, asked, machine, runCommand, reply, settle, Console.json_machine]
  | false =>
    cases stats <;>
      simp [run, asked, machine, runCommand, reply, settle, replyWithPrompt]

/-- A run of `render` ends well. As text it gives the prompt, without its control sequences unless a
terminal shows it; that is the prompt itself exactly on a terminal and where none occurs in it. As JSON it
always gives the whole prompt. -/
theorem run_render (rendering : Rendering world source name budget)
    (asked : world.asked arguments =
      some (.run human verbose (.render source name budget stats asJson)))
    (machine : modeOf world human = .machine) :
    (run arguments world).ending.exitCode = 0 ∧ (run arguments world).passed = [] ∧
      (asJson = false →
        (run arguments world).stdout = world.echo .output rendering.prompt.text ∧
          ((run arguments world).stdout = rendering.prompt.text ↔
            world.host.isTerminal .output = true ∨
              ∀ code, Console.IsControl code → ¬ code <:+: rendering.prompt.text)) ∧
      (asJson = true →
        ∃ members, (run arguments world).stdout = (Json.object members).write .ascii ++ ['\n'] ∧
          Json.member? "prompt".toList members = some (.string rendering.prompt.text)) := by
  obtain ⟨ending, passed, stdout⟩ := rendering.run_machine asked machine
  refine ⟨by rw [ending]; rfl, passed, ?_, ?_⟩
  · rintro rfl
    rw [stdout]
    exact ⟨rfl, World.echo_eq_self_iff⟩
  · rintro rfl
    exact ⟨_, stdout, rfl⟩

end Rendering

/-- A request whose excerpt sets a colour in front of the cursor. -/
def coloured : Request where
  path := "log.txt".toList
  excerpt := "\x1b[31mred\n".toList
  editable := { start := 0, stop := 9 }
  cursor := 5
  startRow := none
  changes := []
  relatedFiles := []
  windows := none
  preferredModel := none
  inOpenSource := false

def colouredWorld : World where
  environment := []
  stdin := Text.encode coloured.encode
  lookup _ := .missing
  host := .plain

def colouredPrompt : Prompt where
  format := .mediumRegion
  text :=
    "<|file_sep|>log.txt\n<|fim_prefix|>\n<|fim_middle|>current\n".toList ++
      "\x1b[31m<|user_cursor|>red\n<|fim_suffix|>\n<|fim_middle|>updated\n".toList
  accounting :=
    { maxTokens := 4096, cursorTokens := 39, historyTokens := 0, relatedTokens := 0,
      totalTokens := 39, changesIncluded := 0, changesTotal := 0, filesIncluded := 0,
      filesTotal := 0, excerptsIncluded := 0 }

def colouredRegion : Region where
  before := []
  untilCursor := "\x1b[31m".toList
  fromCursor := "red\n".toList
  after := []

theorem prompt_coloured : coloured.prompt .mediumRegion 4096 = .ok colouredPrompt := by
  have resolves : coloured.region .mediumRegion = .ok colouredRegion := by
    rfl
  have assembles : coloured.promptAround .mediumRegion 4096 colouredRegion = colouredPrompt := by
    decide +kernel
  rw [Request.prompt, resolves]
  exact congrArg Except.ok assembles

def colouredRendering : Rendering colouredWorld ['-'] none none where
  content := Text.encode coloured.encode
  payload := coloured.encode
  request := coloured
  format := .mediumRegion
  prompt := colouredPrompt
  prefill := []
  held := .stdin
  decodes := Text.decode_of_encode _
  accepted := Request.decode_encode_of_short coloured (by decide)
  chosen := Format.select_name .mediumRegion
  assembled := prompt_coloured
  prefilled := rfl

/-- The command line that asks for the coloured prompt. -/
def colouredLine (asJson : Bool) : List Text :=
  "render".toList :: writeArguments OptionKey.spec (givenToRender none none false asJson) [['-']]

theorem run_render_coloured :
    (run (colouredLine false) colouredWorld).ending.exitCode = 0 ∧
      (run (colouredLine false) colouredWorld).stdout =
        Console.withoutControls colouredPrompt.text ∧
      ∃ members,
        (run (colouredLine true) colouredWorld).stdout =
            (Json.object members).write .ascii ++ ['\n'] ∧
          Json.member? "prompt".toList members = some (.string colouredPrompt.text) := by
  have unlimited : ∀ value ∈ (none : Option Nat), Numeral.IsShort value := by
    decide
  have asked : ∀ asJson, colouredWorld.asked (colouredLine asJson) = _ :=
    World.asked_render rfl Host.readsNumerals_plain ['-'] none none unlimited false
  obtain ⟨ending, _, plain, _⟩ := run_render colouredRendering (asked false) rfl
  obtain ⟨_, _, _, whole⟩ := run_render colouredRendering (asked true) rfl
  exact ⟨ending, (plain rfl).1, whole rfl⟩

/-- Without its colour the prompt is another text. -/
theorem run_render_not_verbatim :
    colouredWorld.asked ["render".toList, ['-']] =
        some (.run false false (.render ['-'] none none false false)) ∧
      Request.decode coloured.encode = .valid coloured ∧
      coloured.prompt .mediumRegion 4096 = .ok colouredPrompt ∧
      coloured.prefill .mediumRegion = .ok [] ∧
      (run ["render".toList, ['-']] colouredWorld).stdout ≠ colouredPrompt.text := by
  have asked : colouredWorld.asked ["render".toList, ['-']] =
      some (.run false false (.render ['-'] none none false false)) := by
    decide +kernel
  refine ⟨asked, colouredRendering.accepted, prompt_coloured, rfl, fun same => ?_⟩
  rw [(colouredRendering.run_machine asked rfl).2.2] at same
  have control : Console.IsControl "\x1b[31m".toList :=
    ⟨['3', '1'], 'm', rfl, List.all_eq_true.mp rfl, rfl⟩
  have occurs : "\x1b[31m".toList <:+: colouredPrompt.text := by
    decide +kernel
  exact Console.withoutControls_eq_self_iff.mp same _ control occurs

end CommandLine

end NextEdit
