import NextEdit.Proofs.CommandLine.Host
import NextEdit.Proofs.CommandLine.Source
import NextEdit.Proofs.Legacy.Readings
import NextEdit.Proofs.Text.Octets

/-! Answers cleaned on the command line. `clean` ends well for every text. It cleans the answer with its
newlines unified, and writes what is left, without control sequences unless a terminal shows it; so it
writes what cleaning the answer itself gives only where neither gets in the way. -/
namespace NextEdit

theorem Legacy.mem_of_mem_regionWithCursor (member : char ∈ regionWithCursor answer) :
    char ∈ answer ∨ char ∈ Marker.cursor := by
  have inAnswer (inside : char ∈ region (withoutCursors answer)) : char ∈ answer := by
    rw [region_eq] at inside
    exact (Text.eraseFrom_sublist _ 0 answer).subset ((innerUntil_isInfix _ _).mem inside)
  rcases regionWithCursor_cases answer with same | ⟨left, right, parts, same⟩
  · exact .inl (inAnswer (same ▸ member))
  · rw [same, List.mem_append, List.mem_append] at member
    rw [parts] at inAnswer
    rcases member with (before | marker) | behind
    · exact .inl (inAnswer (List.mem_append_left right before))
    · exact .inr marker
    · exact .inl (inAnswer (List.mem_append_right left behind))

namespace Format

theorem return_not_mem_of_endMarker? {format : Format} (closes : format.endMarker? = some marker) :
    '\r' ∉ marker := by
  cases format <;> cases closes <;> decide

/-- The marker that is taken off holds no carriage return. -/
theorem return_mem_cleanAnswer_iff {format : Format} :
    '\r' ∈ format.cleanAnswer answer ↔ '\r' ∈ answer := by
  unfold cleanAnswer
  split
  · rename_i marker closes
    by_cases ends : marker <:+ answer
    · obtain ⟨front, rfl⟩ := ends
      rw [Text.dropEnding_append, List.mem_append]
      exact (or_iff_left (return_not_mem_of_endMarker? closes)).symm
    · rw [Text.dropEnding_of_not_suffix ends]
  · exact Iff.rfl

end Format

namespace CommandLine

/-- How an answer is cleaned: as a format has it, or as a legacy one. -/
inductive Cleaning
  | ofFormat (format : Format)
  | ofLegacy

namespace Cleaning

def clean : Cleaning → Text → Text
  | ofFormat format => format.cleanAnswer
  | ofLegacy => Legacy.regionWithCursor

/-- The cleaning that the options of `clean` ask for. -/
inductive IsAsked (settings : Settings) : (name : Option Text) → (isLegacy : Bool) → Cleaning → Prop
  | ofFormat (chosen : Format.select (name.getD settings.defaultFormat) = .ok format) :
    IsAsked settings name false (ofFormat format)
  | ofLegacy : IsAsked settings name true ofLegacy

/-- Cleaning adds no carriage return. -/
theorem return_not_mem_clean (cleaning : Cleaning) (free : '\r' ∉ answer) :
    '\r' ∉ cleaning.clean answer := by
  cases cleaning with
  | ofFormat format => exact mt Format.return_mem_cleanAnswer_iff.mp free
  | ofLegacy =>
    intro member
    rcases Legacy.mem_of_mem_regionWithCursor member with inAnswer | inMarker
    · exact free inAnswer
    · exact absurd inMarker (by decide)

end Cleaning

variable {world : World} {source content : Text} {name : Option Text} {cleaning : Cleaning}

theorem result_cleanReply {settings : Settings} (given : world.Gives source content)
    (asks : cleaning.IsAsked settings name isLegacy) :
    (cleanReply world settings source name isLegacy).result =
      .ok { stdout := world.echo .output (cleaning.clean (Text.unifyNewlines content)) } := by
  rw [cleanReply, Attempt.result_bind_of_ok (result_readSource (.text given))]
  cases asks with
  | ofFormat chosen =>
    rw [if_neg Bool.false_ne_true, Attempt.result_bind_of_ok (result_selectFormat chosen)]
    rfl
  | ofLegacy => rfl

/-- The answer is cleaned as it was read, and may lose its control sequences when it is written. -/
theorem outcome_of_cleaning (given : world.Gives source content)
    (asked : world.asked arguments = some (.run human verbose (.clean source name isLegacy)))
    (asks : cleaning.IsAsked (Settings.ofEnvironment world.environment) name isLegacy) :
    (run arguments world).ending = .done ∧ (run arguments world).passed = [] ∧
      (run arguments world).stdout =
        world.echo .output (cleaning.clean (Text.unifyNewlines content)) := by
  have reply := result_cleanReply given asks
  simp [run, asked, runCommand, reply, settle]

/-- A run of `clean` ends well. It writes the answer as it was read, cleaned, without control sequences
unless a terminal shows it. No carriage return is ever written; an answer without any is written as
cleaning gives it exactly on a terminal and where no control sequence occurs in that, and for a format only
such an answer is. -/
theorem run_clean (given : world.Gives source content)
    (asked : world.asked arguments = some (.run human verbose (.clean source name isLegacy)))
    (asks : cleaning.IsAsked (Settings.ofEnvironment world.environment) name isLegacy) :
    (run arguments world).ending.exitCode = 0 ∧ (run arguments world).passed = [] ∧
      (run arguments world).stdout =
        world.echo .output (cleaning.clean (Text.unifyNewlines content)) ∧
      '\r' ∉ (run arguments world).stdout ∧
      ('\r' ∉ content → ((run arguments world).stdout = cleaning.clean content ↔
        world.host.isTerminal .output = true ∨
          ∀ code, Console.IsControl code → ¬ code <:+: cleaning.clean content)) ∧
      (∀ format, cleaning = .ofFormat format →
        (run arguments world).stdout = cleaning.clean content → '\r' ∉ content) := by
  obtain ⟨ending, passed, stdout⟩ := outcome_of_cleaning given asked asks
  have absent : '\r' ∉ (run arguments world).stdout := by
    have unread := cleaning.return_not_mem_clean (Text.return_not_mem_unifyNewlines content)
    rw [stdout]
    exact fun member => unread ((world.echo_sublist .output _).subset member)
  refine ⟨by rw [ending]; rfl, passed, stdout, absent, ?_, ?_⟩
  · intro free
    rw [stdout, Text.unifyNewlines_of_not_mem free]
    exact World.echo_eq_self_iff
  · rintro format rfl verbatim member
    rw [verbatim] at absent
    exact absent (Format.return_mem_cleanAnswer_iff.mpr member)

/-- The command line that cleans standard input for a format. -/
def cleanLine : List Text :=
  ["clean".toList, ['-'], "--format".toList, "V0120GitMergeMarkers".toList]

theorem asked_cleanLine (content : Text) : (World.piped content).asked cleanLine =
    some (.run false false (.clean ['-'] (some "V0120GitMergeMarkers".toList) false)) := by
  have reads : readCall .plain cleanLine =
      some (.run false false (.clean ['-'] (some "V0120GitMergeMarkers".toList) false)) := by
    decide +kernel
  rwa [World.asked_eq_readCall rfl]

theorem isAsked_cleanLine (settings : Settings) : (Cleaning.ofFormat .mergeMarkers).IsAsked settings
    (some "V0120GitMergeMarkers".toList) false :=
  .ofFormat rfl

theorem run_clean_of_closed :
    (run cleanLine (.piped "x = 1\r\n>>>>>>> UPDATED\n".toList)).ending.exitCode = 0 ∧
      (run cleanLine (.piped "x = 1\r\n>>>>>>> UPDATED\n".toList)).stdout = "x = 1\n".toList := by
  have given := World.gives_piped "x = 1\r\n>>>>>>> UPDATED\n".toList
  obtain ⟨ending, _, stdout, _⟩ := run_clean given (asked_cleanLine _) (isAsked_cleanLine _)
  refine ⟨ending, stdout.trans ?_⟩
  decide +kernel

/-- The command line that cleans a legacy answer. -/
def cleanLegacyLine : List Text :=
  ["clean".toList, ['-'], "--legacy".toList]

theorem asked_cleanLegacyLine (content : Text) : (World.piped content).asked cleanLegacyLine =
    some (.run false false (.clean ['-'] none true)) := by
  have reads : readCall .plain cleanLegacyLine =
      some (.run false false (.clean ['-'] none true)) := by
    decide +kernel
  rwa [World.asked_eq_readCall rfl]

/-- An answer in colour. -/
def paintedAnswer : Text := "\x1b[31mx".toList

/-- An answer of one line that ends in a carriage return and a newline. -/
def returnedAnswer : Text := "x\r\n".toList

/-- Cleaning takes out neither the colour nor the carriage return, but they are not written. -/
theorem run_clean_not_verbatim :
    (run cleanLine (.piped paintedAnswer)).stdout ≠ Format.mergeMarkers.cleanAnswer paintedAnswer ∧
      (run cleanLegacyLine (.piped paintedAnswer)).stdout ≠ Legacy.regionWithCursor paintedAnswer ∧
      (run cleanLine (.piped returnedAnswer)).stdout ≠
        Format.mergeMarkers.cleanAnswer returnedAnswer ∧
      (run cleanLegacyLine (.piped returnedAnswer)).stdout ≠ Legacy.regionWithCursor returnedAnswer := by
  have ofFormat (answer : Text) :=
    (outcome_of_cleaning (World.gives_piped answer) (asked_cleanLine _) (isAsked_cleanLine _)).2.2
  have ofLegacy (answer : Text) :=
    (outcome_of_cleaning (World.gives_piped answer) (asked_cleanLegacyLine _) .ofLegacy).2.2
  rw [ofFormat, ofLegacy, ofFormat, ofLegacy]
  decide +kernel

end CommandLine

end NextEdit
