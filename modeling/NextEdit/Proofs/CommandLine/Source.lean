import NextEdit.CommandLine.Run
import NextEdit.Proofs.Json.Newlines
import NextEdit.Proofs.Text.Octets

/-! What an attempt comes to, and what a source gives: the request that its bytes spell, however its
lines end. Each stage of a command gives a value or stops, and both are told apart by the world. -/
namespace NextEdit

theorem Request.readJson_unifyNewlines (check : Json → Checked α) (text : Text) :
    readJson check (Text.unifyNewlines text) = readJson check text := by
  rw [readJson, Json.read?_unifyNewlines, readJson]

theorem Request.decode_unifyNewlines (text : Text) : decode (Text.unifyNewlines text) = decode text :=
  readJson_unifyNewlines _ text

namespace CommandLine

namespace Attempt

@[simp] theorem result_pure (value : α) : (pure value : Attempt α).result = .ok value := rfl

@[simp] theorem result_fail (failure : Failure) :
    (fail failure : Attempt α).result = .error (.failure failure) := rfl

@[simp] theorem result_stop (cause : Stop) : (stop cause : Attempt α).result = .error cause := rfl

@[simp] theorem result_bind (attempt : Attempt α) (next : α → Attempt β) :
    (attempt >>= next).result = attempt.result.bind fun value => (next value).result := by
  cases found : attempt.result <;> simp [bind, found, Except.bind]

@[simp] theorem result_note (entry : Text) : (note entry).result = .ok () := rfl

@[simp] theorem result_ofFit_ok (value : α) : (ofFit (.ok value)).result = .ok value := rfl

variable {cause : Stop}

/-- An attempt goes on behind what it got through. -/
theorem result_bind_of_ok {attempt : Attempt α} (gets : attempt.result = .ok value)
    (next : α → Attempt β) : (attempt >>= next).result = (next value).result := by
  rw [result_bind, gets]
  rfl

/-- An attempt ends where it stops. -/
theorem result_bind_of_error {attempt : Attempt α} (stops : attempt.result = .error cause)
    (next : α → Attempt β) : (attempt >>= next).result = .error cause := by
  rw [result_bind, stops]
  rfl

/-- What an attempt comes to: it gets through with one value or stops for one cause, and one of the two
is there. -/
structure Settled (attempt : Attempt α) (Gets : α → Prop) (Fails : Stop → Prop) : Prop where
  total : (∃ value, Gets value) ∨ ∃ cause, Fails cause
  gets : ∀ {value}, Gets value → attempt.result = .ok value
  fails : ∀ {cause}, Fails cause → attempt.result = .error cause

section Settled

variable {attempt : Attempt α} {Gets : α → Prop} {Fails : Stop → Prop}

end Settled

end Attempt

namespace World

/-- The bytes behind a source: standard input, or a file. -/
inductive Holds (world : World) : (source : Text) → (content : Octets) → Prop
  | stdin : world.Holds ['-'] world.stdin
  | file (named : source ≠ ['-']) (found : world.lookup source = .file content) :
    world.Holds source content

/-- The text that the bytes behind a source spell. -/
def Gives (world : World) (source payload : Text) : Prop :=
  ∃ content, world.Holds source content ∧ Text.decode content = some payload

/-- Stray bytes come from standard input alone, where it passes them. -/
structure Passes (world : World) (source : Text) (loose : Loose) : Prop where
  piped : source = ['-']
  passes : world.host.passesStray = true
  garbled : Text.decode world.stdin = none
  parts : (Loose.decode world.stdin).map Text.unifyNewlines = loose

/-- What is read from a source. -/
inductive Reads (world : World) (source : Text) : Content → Prop
  | text (given : world.Gives source payload) :
    world.Reads source (.text (Text.unifyNewlines payload))
  | loose (passed : world.Passes source parts) : world.Reads source (.loose parts)

/-- Why nothing is read from a source. -/
inductive Withholds (world : World) (source : Text) : Stop → Prop
  | missing (named : source ≠ ['-']) (found : world.lookup source = .missing) :
    world.Withholds source (.failure (.fileNotFound source))
  | directory (named : source ≠ ['-']) (found : world.lookup source = .directory) :
    world.Withholds source .isDirectory
  | garbled (holds : world.Holds source content) (garbled : Text.decode content = none)
    (strict : source = ['-'] → world.host.passesStray = false) :
    world.Withholds source (.failure (.notUtf8 source (world.host.whyGarbled content)))

/-- The request that the text behind a source spells. -/
def Asks (world : World) (source : Text) (request : Request) : Prop :=
  ∃ payload, world.Gives source payload ∧ Request.decode payload = .valid request

/-- Why no request is loaded: nothing is read, or nothing that spells one. -/
inductive Lacks (world : World) (source : Text) : Stop → Prop
  | unread (withheld : world.Withholds source stop) : world.Lacks source stop
  | unspelt (read : world.Reads source content) (unspelt : requestOf? content = none) :
    world.Lacks source (.failure (.invalidRequest source (world.host.whyInvalid content)))

theorem reads_or_withholds (world : World) (source : Text) :
    (∃ content, world.Reads source content) ∨ ∃ stop, world.Withholds source stop := by
  have given {content : Octets} {payload : Text} (holds : world.Holds source content)
      (decodes : Text.decode content = some payload) : ∃ content, world.Reads source content :=
    ⟨_, .text ⟨content, holds, decodes⟩⟩
  by_cases named : source = ['-']
  · subst named
    cases decodes : Text.decode world.stdin with
    | some payload => exact .inl (given .stdin decodes)
    | none =>
      cases passes : world.host.passesStray with
      | true => exact .inl ⟨_, .loose ⟨rfl, passes, decodes, rfl⟩⟩
      | false => exact .inr ⟨_, .garbled .stdin decodes fun _ => passes⟩
  · cases found : world.lookup source with
    | missing => exact .inr ⟨_, .missing named found⟩
    | directory => exact .inr ⟨_, .directory named found⟩
    | file content =>
      cases decodes : Text.decode content with
      | some payload => exact .inl (given (.file named found) decodes)
      | none => exact .inr ⟨_, .garbled (.file named found) decodes fun same => absurd same named⟩

/-- A plain world in which standard input holds a text, and no file does. -/
def piped (content : Text) : World where
  environment := []
  stdin := Text.encode content
  lookup _ := .missing
  host := .plain

theorem gives_piped (content : Text) : (piped content).Gives ['-'] content :=
  ⟨_, .stdin, Text.decode_of_encode content⟩

end World

variable {world : World} {source payload : Text} {content : Content} {stop : Stop}

section Source

theorem result_readSource (read : world.Reads source content) :
    (readSource world source).result = .ok content := by
  cases read with
  | text given =>
    obtain ⟨octets, holds, decodes⟩ := given
    cases holds with
    | stdin => simp [readSource, decodes]
    | file named found => simp [readSource, named, found, decodes]
  | loose passed =>
    obtain ⟨rfl, passes, garbled, rfl⟩ := passed
    simp [readSource, garbled, passes]

theorem result_readSource_of_withholds (withheld : world.Withholds source stop) :
    (readSource world source).result = .error stop := by
  cases withheld with
  | missing named found => simp [readSource, named, found]
  | directory named found => simp [readSource, named, found]
  | garbled holds garbled strict =>
    cases holds with
    | stdin => simp [readSource, garbled, strict]
    | file named found => simp [readSource, named, found, garbled]

end Source

section Request

/-- Unified newlines leave the request of a text what it is. -/
theorem requestOf?_unifyNewlines (payload : Text) :
    requestOf? (.text (Text.unifyNewlines payload)) =
      match Request.decode payload with
      | .valid request => some request
      | .invalid _ => none := by
  cases decoded : Request.decode payload <;>
    simp [requestOf?, Request.decode_unifyNewlines, decoded]

/-- What was read is a request, or refused as none. -/
theorem result_loadRequest_of_reads (read : world.Reads source content) :
    (loadRequest world source).result =
      match requestOf? content with
      | some request => .ok request
      | none => .error (.failure (.invalidRequest source (world.host.whyInvalid content))) := by
  rw [loadRequest, Attempt.result_bind_of_ok (result_readSource read)]
  cases requestOf? content <;> rfl

/-- A request is what the text behind its source spells, however the lines of the text end. -/
theorem result_loadRequest_of_gives (given : world.Gives source payload) :
    (loadRequest world source).result =
      match Request.decode payload with
      | .valid request => .ok request
      | .invalid _ =>
        .error (.failure
          (.invalidRequest source (world.host.whyInvalid (.text (Text.unifyNewlines payload))))) := by
  rw [result_loadRequest_of_reads (.text given), requestOf?_unifyNewlines]
  cases Request.decode payload <;> rfl

/-- A request means the same however the lines of its text end: with unified newlines the text spells the
same request or has the same issues, so that reading it from a source changes nothing. -/
theorem newlines_keep_request (payload : Text) :
    Request.decode (Text.unifyNewlines payload) = Request.decode payload ∧
      ∀ world source, World.Gives world source payload →
        (loadRequest world source).result =
          match Request.decode payload with
          | .valid request => .ok request
          | .invalid _ =>
            .error (.failure
              (.invalidRequest source
                (world.host.whyInvalid (.text (Text.unifyNewlines payload))))) :=
  ⟨Request.decode_unifyNewlines payload, fun _ _ given => result_loadRequest_of_gives given⟩

/-- A request whose lines end in each of the three ways. -/
def mixedPayload : Text :=
  "\x7b\r\n\"cursor_path\": \"a\",\r\"cursor_excerpt\": \"bc\",\n".toList ++
    "\"editable_range\": \x7b\"start\": 1,\r\"end\": 2\x7d, \"cursor_offset\": 1\r\n\x7d\r".toList

/-- The request itself, in which all that may be left out is. -/
def mixedRequest : Request where
  path := ['a']
  excerpt := ['b', 'c']
  editable := { start := 1, stop := 2 }
  cursor := 1
  startRow := none
  changes := []
  relatedFiles := []
  windows := none
  preferredModel := none
  inOpenSource := false

theorem newlines_keep_request_mixed :
    Request.decode (Text.unifyNewlines mixedPayload) = .valid mixedRequest ∧
      (loadRequest (.piped mixedPayload) ['-']).result = .ok mixedRequest := by
  have accepted : Request.decode mixedPayload = .valid mixedRequest := by
    decide +kernel
  obtain ⟨same, loads⟩ := newlines_keep_request mixedPayload
  refine ⟨same.trans accepted, ?_⟩
  rw [loads _ _ (World.gives_piped mixedPayload), accepted]

theorem result_loadRequest (asked : world.Asks source request) :
    (loadRequest world source).result = .ok request := by
  obtain ⟨payload, given, accepted⟩ := asked
  rw [result_loadRequest_of_gives given, accepted]

/-- Content that is read and spells a request comes from a text that does. -/
theorem World.Reads.asks (read : world.Reads source content)
    (spelt : requestOf? content = some request) : world.Asks source request := by
  cases read with
  | text given =>
    rename_i payload
    rw [requestOf?_unifyNewlines] at spelt
    cases accepted : Request.decode payload with
    | valid other =>
      rw [accepted] at spelt
      cases spelt
      exact ⟨payload, given, accepted⟩
    | invalid issues =>
      rw [accepted] at spelt
      cases spelt
  | loose passed => cases spelt

theorem settled_loadRequest :
    (loadRequest world source).Settled (world.Asks source) (world.Lacks source) where
  total := by
    rcases world.reads_or_withholds source with ⟨content, read⟩ | ⟨stop, withheld⟩
    · cases spelt : requestOf? content with
      | some request => exact .inl ⟨request, read.asks spelt⟩
      | none => exact .inr ⟨_, .unspelt read spelt⟩
    · exact .inr ⟨stop, .unread withheld⟩
  gets := result_loadRequest
  fails := by
    rintro stop (withheld | ⟨read, unspelt⟩)
    · exact Attempt.result_bind_of_error (result_readSource_of_withholds withheld) _
    · rw [result_loadRequest_of_reads read, unspelt]

/-- A request that is there is gone on with. -/
theorem result_bind_of_asks (asked : world.Asks source request) (next : Request → Attempt α) :
    (loadRequest world source >>= next).result = (next request).result :=
  Attempt.result_bind_of_ok (result_loadRequest asked) next

end Request

section Options

theorem result_selectFormat
    (chosen : Format.select (name.getD settings.defaultFormat) = .ok format) :
    (selectFormat settings name).result = .ok format := by
  simp [selectFormat, chosen, Except.bind]

theorem result_selectFormat_eq_error_iff :
    (selectFormat settings name).result = .error stop ↔
      ∃ error, Format.select (name.getD settings.defaultFormat) = .error error ∧
        .failure (.formatNotFound error) = stop := by
  cases selected : Format.select (name.getD settings.defaultFormat) <;>
    simp [selectFormat, selected, Except.bind]

theorem result_readSpan_eq_ok_iff {value : Option Text} :
    (readSpan option value).result = .ok span ↔
      value.map spanOfText? = Option.map some span := by
  cases value with
  | none => cases span <;> simp [readSpan]
  | some value =>
    cases spelt : spanOfText? value <;> cases span <;> simp [readSpan, spelt]

theorem result_readSpan_eq_error_iff {value : Option Text} :
    (readSpan option value).result = .error stop ↔
      ∃ text, value = some text ∧ spanOfText? text = none ∧
        .failure (.invalidSpan option.toList text) = stop := by
  cases value with
  | none => simp [readSpan]
  | some value => cases spelt : spanOfText? value <;> simp [readSpan, spelt]

end Options

end CommandLine

end NextEdit
