import NextEdit.Proofs.CommandLine.Render
import NextEdit.Proofs.Json.Ascii
import NextEdit.Proofs.Json.Grammar
import NextEdit.Proofs.Prompt.Assembly

/-! Prompts as JSON on the command line. What machines get from `render` is one line that spells the
prompt, its account and its prefill, and nothing is lost: the line spells no other prompt. -/
namespace NextEdit

open Json

theorem Format.eq_of_name_eq {left right : Format} (same : left.name = right.name) : left = right := by
  have selects := Format.select_name left
  rw [same, Format.select_name right] at selects
  exact (Except.ok.inj selects).symm

/-- An account is told by what is written of it. -/
theorem Accounting.eq_of_toJson_eq {left right : Accounting} (same : left.toJson = right.toJson) :
    left = right := by
  obtain ⟨_, _, _, _, _, _, _, _, _, _⟩ := left
  obtain ⟨_, _, _, _, _, _, _, _, _, _⟩ := right
  simp only [toJson, object.injEq, List.cons.injEq, Prod.mk.injEq, int.injEq, Int.natCast_inj, true_and,
    and_true] at same
  obtain ⟨rfl, rfl, rfl, rfl, rfl, rfl, rfl, rfl, rfl, rfl, _⟩ := same
  rfl

theorem Accounting.isStandard_toJson (accounting : Accounting) : IsStandard accounting.toJson := by
  apply IsStandard.object
  simp [IsStandard.int, IsStandard.bool]

namespace Prompt

variable {prompt other : Prompt} {prefill otherPrefill : Text}

/-- A prompt and its prefill are told by what is written of them. -/
theorem eq_of_toJsonWith_eq (same : prompt.toJsonWith prefill = other.toJsonWith otherPrefill) :
    prompt = other ∧ prefill = otherPrefill := by
  obtain ⟨format, text, accounting⟩ := prompt
  obtain ⟨otherFormat, otherText, otherAccounting⟩ := other
  simp only [toJsonWith, members, object.injEq, List.cons_append, List.nil_append, List.cons.injEq,
    Prod.mk.injEq, string.injEq, true_and, and_true] at same
  obtain ⟨names, rfl, accounts, rfl⟩ := same
  cases Format.eq_of_name_eq names
  cases Accounting.eq_of_toJson_eq accounts
  exact ⟨rfl, rfl⟩

theorem isStandard_toJsonWith (prompt : Prompt) (prefill : Text) :
    IsStandard (prompt.toJsonWith prefill) := by
  apply IsStandard.object
  simp [members, IsStandard.string, Accounting.isStandard_toJson]

/-- The line spells the prompt with its prefill, and no other value. -/
theorem spells_write_iff :
    Spells ((prompt.toJsonWith prefill).write .ascii) json ↔ json = prompt.toJsonWith prefill := by
  have spells := spells_write readable_ascii (prompt.isStandard_toJsonWith prefill)
  constructor
  · exact fun other => other.unique spells
  · rintro rfl
    exact spells

end Prompt

namespace CommandLine

variable {world : World} {source : Text} {name : Option Text} {budget : Option Int}

/-- A run of `render` as JSON ends well. It gives machines one line of printable ASCII, which spells one
value: the name of the format, the whole prompt, its account and the prefill. So no other prompt or
prefill is spelled by it. -/
theorem run_render_json (rendering : Rendering world source name budget)
    (asked : world.asked arguments = some (.run human verbose (.render source name budget stats true)))
    (machine : modeOf world human = .machine) :
    (run arguments world).ending.exitCode = 0 ∧ (run arguments world).passed = [] ∧
      ∃ line, (run arguments world).stdout = line ++ ['\n'] ∧ AllPrintable line ∧
        (∀ json, Spells line json ↔
          json = object
            [("format".toList, string rendering.format.name),
              ("prompt".toList, string rendering.prompt.text),
              ("stats".toList, rendering.prompt.accounting.toJson),
              ("prefill".toList, string rendering.prefill)]) ∧
        ∀ prompt prefill, Spells line (prompt.toJsonWith prefill) →
          prompt = rendering.prompt ∧ prefill = rendering.prefill := by
  obtain ⟨ending, passed, stdout⟩ := rendering.run_machine asked machine
  refine ⟨by rw [ending]; rfl, passed, _, stdout, allPrintable_write _, ?_, ?_⟩
  · intro json
    rw [Prompt.spells_write_iff, ← Request.format_of_prompt rendering.assembled]
    rfl
  · intro prompt prefill spells
    exact Prompt.eq_of_toJsonWith_eq (Prompt.spells_write_iff.mp spells)

/-- The colour in front of the cursor is in the JSON too. -/
theorem run_render_json_coloured : ∃ line,
    (run (colouredLine true) colouredWorld).stdout = line ++ ['\n'] ∧ AllPrintable line ∧
      Spells line (colouredPrompt.toJsonWith []) := by
  have unlimited : ∀ value ∈ (none : Option Nat), Numeral.IsShort value := by
    decide
  have asked : colouredWorld.asked (colouredLine true) = _ :=
    World.asked_render rfl Host.readsNumerals_plain ['-'] none none unlimited false true
  obtain ⟨_, _, line, stdout, printable, spells, _⟩ := run_render_json colouredRendering asked rfl
  exact ⟨line, stdout, printable, (spells _).mpr rfl⟩

end CommandLine

end NextEdit
