import NextEdit.Legacy.Answer
import NextEdit.Proofs.Text.Scan
import NextEdit.Proofs.Text.Tag

/-! The markers of the legacy texts. Each is a tag, so none holds another one or runs into it, and a
text that holds one is cut at its first occurrence. -/
namespace NextEdit.Legacy

/-- All markers of the legacy texts. -/
def markers : List Text :=
  singleMarkers ++ [Marker.legacyCursor]

/-- The text holds none of the markers. -/
def Unmarked (text : Text) : Prop :=
  ∀ marker ∈ markers, ¬ marker <:+: text

instance (text : Text) : Decidable (Unmarked text) :=
  inferInstanceAs (Decidable (∀ marker ∈ markers, _))

variable {marker other text : Text}

theorem isTag_of_mem_markers (member : marker ∈ markers) : Text.IsTag marker := by
  have table : ∀ marker ∈ markers, Text.IsTag marker := by
    decide +kernel
  exact table marker member

theorem regionStart_mem : Marker.regionStart ∈ markers := .head _

theorem regionEnd_mem : Marker.regionEnd ∈ markers := .tail _ (.head _)

theorem startOfFile_mem : Marker.startOfFile ∈ markers := .tail _ (.tail _ (.head _))

theorem legacyCursor_mem : Marker.legacyCursor ∈ markers := .tail _ (.tail _ (.tail _ (.head _)))

/-- No marker holds another one. -/
theorem not_infix_of_ne (member : marker ∈ markers) (otherMember : other ∈ markers)
    (different : marker ≠ other) : ¬ marker <:+: other := fun found =>
  different ((isTag_of_mem_markers member).eq_of_part (isTag_of_mem_markers otherMember) found)

theorem count_of_free (member : marker ∈ markers) (free : ¬ marker <:+: text) :
    Text.count marker text = 0 :=
  (Text.count_eq_zero_iff (isTag_of_mem_markers member).inline.1).mpr free

/-- A marker runs into no other copy of itself, so its first occurrence is the one behind a text
without it. -/
theorem splitFirst?_marker (member : marker ∈ markers) (free : ¬ marker <:+: text) (rest : Text) :
    Text.splitFirst? marker (text ++ (marker ++ rest)) = some (text, rest) :=
  have tag := isTag_of_mem_markers member
  Text.splitFirst?_append (tag.endsBefore tag) free rest

theorem exists_first (member : marker ∈ markers) (found : marker <:+: text) :
    ∃ before rest, text = before ++ (marker ++ rest) ∧ ¬ marker <:+: before :=
  Text.exists_first_of_infix (isTag_of_mem_markers member).inline.1 found

end NextEdit.Legacy
