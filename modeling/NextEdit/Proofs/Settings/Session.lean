import Mathlib.Data.List.Induction
import NextEdit.Proofs.Settings.Environment

/-! Settings over the life of a session. Between two resets every use of the settings sees what the
environment held at the first of these uses, and the assignments since. A use is any operation that
asks for a setting, whether or not it then gets through. -/
namespace NextEdit.Session

/-- One thing a program does with its session or its environment. -/
inductive Operation
  | setVariable (name value : Text)
  | unsetVariable (name : Text)
  | reset
  | assign (assignment : Assignment)
  | settings
  | formatted (request : Request) (format : Option Format)
  | promptText (request : Request) (formatName : Option Text)
  | prompt (request : Request) (format : Format) (maxTokens : Option Int)
  | legacyHistory (changes : List Change) (maxTokens : Option Int)
deriving DecidableEq

/-- What an operation gives back. -/
inductive Answer
  | done
  | settings (settings : Settings)
  | text (result : Except PromptError Text)
  | prompt (result : Except RangeError Prompt)
  | legacyHistory (history : Text × Nat)

namespace Operation

/-- Carries an operation out. -/
def run (session : Session) : Operation → Answer × Session
  | setVariable name value => (.done, session.setVariable name value)
  | unsetVariable name => (.done, session.unsetVariable name)
  | reset => (.done, session.reset)
  | assign assignment => (.done, session.assign assignment)
  | settings => (.settings session.settings, session.used)
  | formatted request format =>
    let (result, session) := session.formatted request format
    (.text result, session)
  | promptText request formatName =>
    let (result, session) := session.promptText request formatName
    (.text result, session)
  | prompt request format maxTokens =>
    let (result, session) := session.prompt request format maxTokens
    (.prompt result, session)
  | legacyHistory changes maxTokens =>
    let (history, session) := session.legacyHistory changes maxTokens
    (.legacyHistory history, session)

/-- Whether an operation asks for a setting. A format name that selects nothing is refused before
the budget is asked for; the default name is a setting itself. -/
def uses : Operation → Bool
  | assign _ | settings | formatted _ _ | promptText _ none => true
  | promptText _ (some name) => (Format.select name).isOk
  | prompt _ _ maxTokens | legacyHistory _ maxTokens => maxTokens.isNone
  | setVariable _ _ | unsetVariable _ | reset => false

/-- The environment behind an operation. -/
def environment (environment : Environment) : Operation → Environment
  | setVariable name value => environment.set name value
  | unsetVariable name => environment.unset name
  | _ => environment

/-- The settings behind an operation, once they are read. -/
def change (settings : Settings) : Operation → Settings
  | assign assignment => assignment.apply settings
  | _ => settings

/-- The prompt text in the format that is selected, within the budget in the given settings. -/
def textSelected (seen : Settings) (request : Request) :
    Except Format.SelectError Format → Except PromptError Text
  | .error error => .error (.format error)
  | .ok format =>
    match request.prompt format seen.maxPromptTokens with
    | .error error => .error (.range error)
    | .ok assembled => .ok assembled.text

/-- The answer of an operation that sees the given settings. -/
def answer (seen : Settings) : Operation → Answer
  | settings => .settings seen
  | formatted request none => .text (textSelected seen request (Format.select seen.defaultFormat))
  | formatted request (some format) => .text (textSelected seen request (.ok format))
  | promptText request formatName =>
    .text (textSelected seen request (Format.select (formatName.getD seen.defaultFormat)))
  | prompt request format maxTokens =>
    .prompt (request.prompt format (maxTokens.getD seen.maxPromptTokens))
  | legacyHistory changes maxTokens =>
    .legacyHistory (Legacy.historyWithin (maxTokens.getD seen.legacyMaxEventTokens) changes)
  | setVariable _ _ | unsetVariable _ | reset | assign _ => .done

section Step

variable (session : Session) (operation : Operation)

@[simp] theorem settings_used : session.used.settings = session.settings := rfl

@[simp] theorem used_used : session.used.used = session.used := rfl

theorem textIn_eq (request : Request) (format : Format) :
    session.textIn request format =
      (textSelected session.settings request (.ok format), session.used) := by
  simp only [textIn, Session.prompt, textSelected]
  cases request.prompt format session.settings.maxPromptTokens <;> rfl

/-- Asked for in a format or not, the text uses the settings. -/
theorem formatted_eq (request : Request) (format : Option Format) :
    session.formatted request format =
      (textSelected session.settings request
        (format.elim (Format.select session.settings.defaultFormat) .ok), session.used) := by
  cases format with
  | some format => exact textIn_eq session request format
  | none =>
    cases selected : Format.select session.settings.defaultFormat with
    | error error => simp only [Session.formatted, selected, Option.elim_none, textSelected]
    | ok format =>
      simp only [Session.formatted, selected, Option.elim_none, textIn_eq, settings_used, used_used]

/-- A format that is given by a name is selected first, and its text asked for then. -/
theorem promptText_eq (request : Request) (name : Option Text) :
    session.promptText request name =
      (textSelected session.settings request
        (Format.select (name.getD session.settings.defaultFormat)),
        if (promptText request name).uses then session.used else session) := by
  cases name with
  | none => exact formatted_eq session request none
  | some name =>
    cases selected : Format.select name with
    | error error =>
      simp [Session.promptText, uses, selected, textSelected, Except.isOk, Except.toBool]
    | ok format =>
      simp [Session.promptText, uses, selected, formatted_eq, Except.isOk, Except.toBool]

/-- An operation answers from the settings in force. -/
theorem run_answer : (run session operation).1 = answer session.settings operation := by
  cases operation with
  | formatted request format => cases format <;> simp only [run, answer, formatted_eq] <;> rfl
  | promptText request name => simp only [run, answer, promptText_eq]
  | prompt request format maxTokens => cases maxTokens <;> rfl
  | legacyHistory changes maxTokens => cases maxTokens <;> rfl
  | _ => rfl

@[simp] theorem run_environment :
    (run session operation).2.environment = operation.environment session.environment := by
  cases operation with
  | formatted request format => simp only [run, environment, formatted_eq, Session.used]
  | promptText request name =>
    simp only [run, environment, promptText_eq]
    split <;> rfl
  | prompt request format maxTokens => cases maxTokens <;> rfl
  | legacyHistory changes maxTokens => cases maxTokens <;> rfl
  | _ => rfl

variable {session operation}

/-- A use reads the settings, if nothing did before, and keeps them. -/
theorem kept_of_uses (use : operation.uses = true) :
    (run session operation).2.kept = some (operation.change session.settings) := by
  cases operation with
  | formatted request format =>
    simp only [run, formatted_eq]
    rfl
  | promptText request name =>
    simp only [run, promptText_eq, use, if_true]
    rfl
  | prompt request format maxTokens =>
    cases maxTokens with
    | none => rfl
    | some budget => cases use
  | legacyHistory changes maxTokens =>
    cases maxTokens with
    | none => rfl
    | some budget => cases use
  | assign assignment => rfl
  | settings => rfl
  | _ => cases use

/-- What neither uses nor resets the settings leaves them alone. -/
theorem kept_of_quiet (quiet : operation.uses = false) (stays : operation ≠ .reset) :
    (run session operation).2.kept = session.kept := by
  cases operation with
  | promptText request name => simp only [run, promptText_eq, quiet, if_neg Bool.false_ne_true]
  | prompt request format maxTokens =>
    cases maxTokens with
    | none => cases quiet
    | some budget => rfl
  | legacyHistory changes maxTokens =>
    cases maxTokens with
    | none => cases quiet
    | some budget => rfl
  | reset => exact absurd rfl stays
  | setVariable name value => rfl
  | unsetVariable name => rfl
  | _ => cases quiet

theorem change_of_quiet (quiet : operation.uses = false) (known : Settings) :
    operation.change known = known := by
  cases operation with
  | assign assignment => cases quiet
  | _ => rfl

/-- Settings that are kept change by assignments only, whatever the environment holds. -/
theorem kept_of_kept (found : session.kept = some known) (stays : operation ≠ .reset) :
    (run session operation).2.kept = some (operation.change known) := by
  cases use : operation.uses with
  | true =>
    have seen : session.settings = known := by
      rw [Session.settings, found]
      rfl
    rw [kept_of_uses use, seen]
  | false => rw [kept_of_quiet use stays, change_of_quiet use, found]

end Step

end Operation

/-- The session behind a sequence of operations. -/
def after (session : Session) (operations : List Operation) : Session :=
  operations.foldl (fun session operation => (operation.run session).2) session

/-- The answers to a sequence of operations. -/
def answers (session : Session) : List Operation → List Answer
  | [] => []
  | operation :: rest => (operation.run session).1 :: answers (operation.run session).2 rest

section Run

variable {session : Session} {operations history before quiet since : List Operation}

theorem after_append (first second : List Operation) :
    session.after (first ++ second) = (session.after first).after second :=
  List.foldl_append

theorem getElem?_answers (past future : List Operation) (operation : Operation) :
    (session.answers (past ++ operation :: future))[past.length]? =
      some (operation.run (session.after past)).1 := by
  induction past generalizing session with
  | nil => rfl
  | cons first rest ih => exact ih

theorem environment_after (session : Session) (operations : List Operation) :
    (session.after operations).environment =
      operations.foldl Operation.environment session.environment := by
  induction operations generalizing session with
  | nil => rfl
  | cons operation rest ih =>
    refine (ih _).trans ?_
    rw [Operation.run_environment]
    rfl

theorem kept_after_quiet (quiet : ∀ operation ∈ operations, operation.uses = false)
    (stays : Operation.reset ∉ operations) :
    (session.after operations).kept = session.kept := by
  induction operations generalizing session with
  | nil => rfl
  | cons operation rest ih =>
    obtain ⟨here, later⟩ := List.forall_mem_cons.mp quiet
    obtain ⟨other, others⟩ := not_or.mp (mt List.mem_cons.mpr stays)
    exact (ih later others).trans (Operation.kept_of_quiet here (Ne.symm other))

theorem kept_after_read (found : session.kept = some known)
    (stays : Operation.reset ∉ operations) :
    (session.after operations).kept = some (operations.foldl Operation.change known) := by
  induction operations generalizing session known with
  | nil => exact found
  | cons operation rest ih =>
    obtain ⟨other, others⟩ := not_or.mp (mt List.mem_cons.mpr stays)
    exact ih (Operation.kept_of_kept found (Ne.symm other)) others

/-- A history parted at its latest reset and at the first use of the settings behind it. -/
structure Epoch (history before quiet since : List Operation) : Prop where
  parts : history = before ++ quiet ++ since
  fresh : before = [] ∨ ∃ earlier, before = earlier ++ [.reset]
  stays : .reset ∉ quiet ++ since
  quiet : ∀ operation ∈ quiet, operation.uses = false
  use : ∀ operation ∈ since.head?, operation.uses = true

theorem exists_epoch (history : List Operation) :
    ∃ before quiet since, Epoch history before quiet since := by
  induction history using List.reverseRecOn with
  | nil => exact ⟨[], [], [], by constructor <;> simp⟩
  | append_singleton history operation ih =>
    obtain ⟨before, quiet, since, epoch⟩ := ih
    by_cases same : operation = .reset
    · subst same
      exact ⟨history ++ [.reset], [], [], by constructor <;> simp⟩
    · have stays : Operation.reset ∉ quiet ++ since ++ [operation] := by
        intro member
        rcases List.mem_append.mp member with earlier | last
        · exact epoch.stays earlier
        · exact same (List.mem_singleton.mp last).symm
      by_cases waiting : since = [] ∧ operation.uses = false
      · obtain ⟨rfl, here⟩ := waiting
        refine ⟨before, quiet ++ [operation], [], ?_, epoch.fresh, ?_, ?_, ?_⟩
        · simp [epoch.parts]
        · simpa using stays
        · intro other member
          rcases List.mem_append.mp member with earlier | last
          · exact epoch.quiet other earlier
          · rw [List.mem_singleton.mp last]
            exact here
        · simp
      · refine ⟨before, quiet, since ++ [operation], ?_, epoch.fresh, ?_, epoch.quiet, ?_⟩
        · simp [epoch.parts]
        · simpa using stays
        · intro first starts
          cases since with
          | nil =>
            cases starts
            simpa using waiting
          | cons earlier rest => exact epoch.use first starts

/-- Behind a reset nothing is kept, and nothing is until the first use. -/
theorem Epoch.kept_before_use (epoch : Epoch history before quiet since) (start : Environment) :
    (after { environment := start } (before ++ quiet)).kept = none := by
  have stays : Operation.reset ∉ quiet := by
    intro member
    exact epoch.stays (List.mem_append_left since member)
  rw [after_append, kept_after_quiet epoch.quiet stays]
  rcases epoch.fresh with rfl | ⟨earlier, rfl⟩
  · rfl
  · rw [after_append]
    rfl

theorem Epoch.settings_after (epoch : Epoch history before quiet since) (start : Environment) :
    (after { environment := start } history).settings =
      since.foldl Operation.change
        (Settings.ofEnvironment ((before ++ quiet).foldl Operation.environment start)) := by
  have waiting := epoch.kept_before_use start
  have current := environment_after { environment := start } (before ++ quiet)
  have reads : (after { environment := start } (before ++ quiet)).settings =
      Settings.ofEnvironment ((before ++ quiet).foldl Operation.environment start) := by
    rw [settings, waiting, current]
    rfl
  rw [epoch.parts, after_append]
  cases since with
  | nil => exact reads
  | cons first rest =>
    have read : (first.run (after { environment := start } (before ++ quiet))).2.kept = some _ :=
      Operation.kept_of_uses (epoch.use first rfl)
    have stays : Operation.reset ∉ rest := by
      intro member
      exact epoch.stays (List.mem_append_right quiet (List.mem_cons_of_mem first member))
    have kept := kept_after_read read stays
    rw [reads] at kept
    exact congrArg (Option.getD · _) kept

end Run

/-- Every history has an epoch, and the settings that an operation behind it sees are those of the
environment at the first use in the epoch, or now where there was none, changed by the assignments
since. Settings just read are sound, whatever the environment holds. -/
theorem settings_read_once (start : Environment) (past future : List Operation)
    (operation : Operation) :
    (∃ before quiet since, Epoch past before quiet since) ∧
      (∀ before quiet since, Epoch past before quiet since →
        (answers { environment := start } (past ++ operation :: future))[past.length]? =
          some (operation.answer (since.foldl Operation.change
            (Settings.ofEnvironment ((before ++ quiet).foldl Operation.environment start))))) ∧
      ∀ environment, (Settings.ofEnvironment environment).IsSound := by
  refine ⟨exists_epoch past, ?_, Settings.isSound_ofEnvironment⟩
  intro before quiet since epoch
  rw [getElem?_answers, Operation.run_answer, epoch.settings_after]

/-- The budget is set in front of the first use behind a reset, and again behind that use. -/
def budgetSetTwice : List Operation :=
  [.settings, .reset, .setVariable "EDITPROMPT_MAX_PROMPT_TOKENS".toList "10".toList,
    .assign (.legacyMaxEventTokens 7),
    .setVariable "EDITPROMPT_MAX_PROMPT_TOKENS".toList "99".toList]

/-- The use is an assignment; what is set behind it goes unseen. -/
theorem settings_read_once_of_assignment :
    Epoch budgetSetTwice (budgetSetTwice.take 2) ((budgetSetTwice.drop 2).take 1)
        (budgetSetTwice.drop 3) ∧
      (answers { environment := [] } (budgetSetTwice ++ [.settings]))[5]? =
        some (.settings
          { maxPromptTokens := 10
            legacyMaxEventTokens := 7
            defaultFormat := Format.default.name }) := by
  have epoch : Epoch budgetSetTwice (budgetSetTwice.take 2) ((budgetSetTwice.drop 2).take 1)
      (budgetSetTwice.drop 3) := by
    refine ⟨rfl, .inr ⟨[.settings], rfl⟩, by decide, ?_, ?_⟩
    · exact List.forall_mem_singleton.mpr rfl
    · rintro operation ⟨⟩
      rfl
  obtain ⟨_, seen, _⟩ := settings_read_once [] budgetSetTwice [] .settings
  exact ⟨epoch, (seen _ _ _ epoch).trans rfl⟩

end NextEdit.Session
