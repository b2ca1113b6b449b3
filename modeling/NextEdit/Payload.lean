import NextEdit.Prompt
import NextEdit.Json.Basic
import NextEdit.Settings

/-! Prompts, their accounts and the settings as JSON. -/
namespace NextEdit

open Json

def Accounting.toJson (accounting : Accounting) : Json :=
  object
    [("max_tokens".toList, int accounting.maxTokens),
      ("cursor_tokens".toList, int accounting.cursorTokens),
      ("edit_history_tokens".toList, int accounting.historyTokens),
      ("related_files_tokens".toList, int accounting.relatedTokens),
      ("total_tokens".toList, int accounting.totalTokens),
      ("events_included".toList, int accounting.changesIncluded),
      ("events_total".toList, int accounting.changesTotal),
      ("related_files_included".toList, int accounting.filesIncluded),
      ("related_files_total".toList, int accounting.filesTotal),
      ("excerpts_included".toList, int accounting.excerptsIncluded),
      ("over_budget".toList, bool accounting.exceedsBudget)]

namespace Prompt

def members (prompt : Prompt) : List (Text × Json) :=
  [("format".toList, string prompt.format.name),
    ("prompt".toList, string prompt.text),
    ("stats".toList, prompt.accounting.toJson)]

def toJson (prompt : Prompt) : Json :=
  object prompt.members

/-- The prompt together with the prefill of its answer. -/
def toJsonWith (prompt : Prompt) (prefill : Text) : Json :=
  object (prompt.members ++ [("prefill".toList, string prefill)])

end Prompt

def Settings.toJson (settings : Settings) : Json :=
  object
    [("max_prompt_tokens".toList, int settings.maxPromptTokens),
      ("legacy_max_event_tokens".toList, int settings.legacyMaxEventTokens),
      ("default_format".toList, string settings.defaultFormat)]

end NextEdit
