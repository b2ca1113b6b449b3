import NextEdit.Proofs.Json.RoundTrip
import NextEdit.Proofs.Request.Members

/-! Requests are read back as they were written. The members of each part stand in the order of its
checks under names of their own; what is absent is left out and comes back as absent. -/
namespace NextEdit

open Json

section Checks

theorem Span.ofJson_toJson (span : Span) : Span.ofJson span.toJson = .valid span := by
  simp [Span.ofJson, Span.toJson, required, member?_cons, member?_nil, span.ordered,
    String.toList_inj, -String.reduceToList]

theorem Change.checkEvent_name : Change.checkEvent (string "BufferChange".toList) = .valid () := by
  rw [Change.checkEvent, if_pos rfl]

theorem Change.ofJson_toJson (change : Change) : Change.ofJson change.toJson = .valid change := by
  simp [Change.ofJson, Change.toJson, required, Json.optional, Change.checkEvent_name, member?_cons,
    member?_nil, String.toList_inj, -String.reduceToList]

theorem Related.Excerpt.ofJson_toJson (excerpt : Related.Excerpt) :
    Related.Excerpt.ofJson excerpt.toJson = .valid excerpt := by
  simp [Related.Excerpt.ofJson, Related.Excerpt.toJson, required, Span.ofJson_toJson, member?_cons,
    member?_nil, String.toList_inj, -String.reduceToList]

theorem Related.File.ofJson_toJson (file : Related.File) :
    Related.File.ofJson file.toJson = .valid file := by
  simp [Related.File.ofJson, Related.File.toJson, required, Json.optional, member?_cons, member?_nil,
    checkList_map Related.Excerpt.ofJson_toJson, String.toList_inj, -String.reduceToList]

/-- Windows hold what their check asks for. -/
theorem Windows.check_self (windows : Windows) :
    Windows.check ⟨windows.narrow.editable, windows.narrow.context⟩
      ⟨windows.medium.editable, windows.medium.context⟩
      ⟨windows.wide.editable, windows.wide.context⟩ = .valid windows := by
  rw [Windows.check, dif_pos windows.narrow_nested, dif_pos windows.medium_nested,
    dif_pos windows.wide_nested]

theorem Windows.ofJson_toJson (windows : Windows) :
    Windows.ofJson windows.toJson = .valid windows := by
  simp [Windows.ofJson, Windows.toJson, required, Span.ofJson_toJson, Windows.check_self,
    member?_cons, member?_nil, String.toList_inj, -String.reduceToList]

theorem PreferredModel.ofJson_toJson (model : PreferredModel) :
    PreferredModel.ofJson model.toJson = .valid model := by
  cases model <;>
    simp [PreferredModel.ofJson, PreferredModel.toJson, String.toList_inj, -String.reduceToList]

theorem checkOptional_eq {check : Json → Checked α} (holds : check json = .valid value)
    (notNull : json ≠ null) : checkOptional check json = .valid (some value) := by
  rw [checkOptional, holds, Checked.map_valid]
  exact notNull

theorem Request.ofJson_toJson (request : Request) :
    Request.ofJson request.toJson = .valid request := by
  obtain ⟨path, excerpt, editable, cursor, startRow, changes, files, windows, model, inOpenSource⟩ :=
    request
  have row (value : Int) : checkOptional checkInteger (int value) = .valid (some value) :=
    checkOptional_eq (checkInteger_int value) nofun
  have ranges (value : Windows) : checkOptional Windows.ofJson value.toJson = .valid (some value) :=
    checkOptional_eq value.ofJson_toJson nofun
  have preference (value : PreferredModel) :
      checkOptional PreferredModel.ofJson value.toJson = .valid (some value) :=
    checkOptional_eq value.ofJson_toJson (by cases value <;> nofun)
  simp only [Request.ofJson, Request.toJson, checkObject_object, required, Json.optional,
    member?_append, member?_cons, member?_nil, member?_present, String.toList_inj, String.reduceEq,
    if_true, if_false, Option.none_or, Option.or_none, -String.reduceToList]
  cases startRow <;> cases windows <;> cases model <;>
    simp [Span.ofJson_toJson, checkList_map Change.ofJson_toJson,
      checkList_map Related.File.ofJson_toJson, row, ranges, preference, -String.reduceToList]

end Checks

section Integers

def Span.integers (span : Span) : List Int :=
  [(span.start : Int), (span.stop : Int)]

def Related.File.integers (file : Related.File) : List Int :=
  (file.maxRow : Int) :: file.excerpts.flatMap (·.rows.integers)

def Window.integers (window : Window) : List Int :=
  window.editable.integers ++ window.context.integers

def Windows.integers (windows : Windows) : List Int :=
  windows.narrow.integers ++ windows.medium.integers ++ windows.wide.integers

/-- Every integer that a request holds. -/
def Request.integers (request : Request) : List Int :=
  request.editable.integers ++ [(request.cursor : Int)] ++ request.startRow.toList ++
    request.relatedFiles.flatMap Related.File.integers ++
    request.windows.toList.flatMap Windows.integers

/-- No integer has more digits than a reader takes. -/
def AllShort (integers : List Int) : Prop :=
  ∀ value ∈ integers, Numeral.IsShort value

instance (integers : List Int) : Decidable (AllShort integers) :=
  inferInstanceAs (Decidable (∀ value ∈ integers, Numeral.IsShort value))

@[simp] theorem allShort_append {front back : List Int} :
    AllShort (front ++ back) ↔ AllShort front ∧ AllShort back :=
  List.forall_mem_append

@[simp] theorem allShort_cons {value : Int} {rest : List Int} :
    AllShort (value :: rest) ↔ Numeral.IsShort value ∧ AllShort rest :=
  List.forall_mem_cons

@[simp] theorem allShort_nil : AllShort [] :=
  List.forall_mem_nil _

@[simp] theorem allShort_flatMap {values : List α} {integers : α → List Int} :
    AllShort (values.flatMap integers) ↔ ∀ value ∈ values, AllShort (integers value) := by
  simp only [AllShort, List.mem_flatMap]
  exact ⟨fun all value member integer isInteger => all integer ⟨value, member, isInteger⟩,
    fun all integer ⟨value, member, isInteger⟩ => all value member integer isInteger⟩

end Integers

section Legibility

variable {depth : Nat}

@[simp] theorem legible_string (value : Text) : Legible depth (string value) := by
  cases depth <;> trivial

@[simp] theorem legible_bool (value : Bool) : Legible depth (bool value) := by
  cases depth <;> trivial

@[simp] theorem legible_int {value : Int} : Legible depth (int value) ↔ Numeral.IsShort value := by
  cases depth <;> exact Iff.rfl

@[simp] theorem legible_object {members : List (Text × Json)} :
    Legible (depth + 1) (object members) ↔ ∀ member ∈ members, Legible depth member.2 :=
  Iff.rfl

theorem legible_list {write : α → Json} {values : List α}
    (all : ∀ value ∈ values, Legible depth (write value)) :
    Legible (depth + 1) (list (values.map write)) := by
  intro item member
  obtain ⟨value, isValue, rfl⟩ := List.mem_map.mp member
  exact all value isValue

theorem Span.legible (span : Span) (short : AllShort span.integers) :
    Legible (depth + 1) span.toJson := by
  simpa [Span.toJson, Span.integers] using short

theorem Change.legible (change : Change) : Legible (depth + 1) change.toJson := by
  simp [Change.toJson]

theorem Related.Excerpt.legible (excerpt : Related.Excerpt) (short : AllShort excerpt.rows.integers) :
    Legible (depth + 2) excerpt.toJson := by
  simp [Related.Excerpt.toJson, excerpt.rows.legible short]

theorem Related.File.legible (file : Related.File) (short : AllShort file.integers) :
    Legible (depth + 4) file.toJson := by
  obtain ⟨row, excerpts⟩ := allShort_cons.mp short
  have listed : Legible (depth + 3) (list (file.excerpts.map Related.Excerpt.toJson)) :=
    legible_list fun excerpt member => excerpt.legible (allShort_flatMap.mp excerpts excerpt member)
  simp [Related.File.toJson, row, listed]

theorem Windows.legible (windows : Windows) (short : AllShort windows.integers) :
    Legible (depth + 2) windows.toJson := by
  simp only [Windows.integers, Window.integers, allShort_append] at short
  obtain ⟨⟨narrow, medium⟩, wide⟩ := short
  simp [Windows.toJson, Span.legible, narrow, medium, wide]

theorem PreferredModel.legible (model : PreferredModel) : Legible depth model.toJson := by
  cases model <;> exact legible_string _

theorem legible_present {value : Option Json} (holds : ∀ json ∈ value, Legible depth json) :
    ∀ member ∈ Request.present name value, Legible depth member.2 := by
  cases value with
  | none => exact List.forall_mem_nil _
  | some json => exact List.forall_mem_singleton.mpr (holds json rfl)

theorem Request.legible (request : Request) (short : AllShort request.integers) :
    Legible (depth + 6) request.toJson := by
  simp only [Request.integers, allShort_append] at short
  obtain ⟨⟨⟨⟨editable, cursor⟩, startRow⟩, files⟩, windows⟩ := short
  have changes : Legible (depth + 5) (list (request.changes.map Change.toJson)) :=
    legible_list fun change _ => change.legible
  have related : Legible (depth + 5) (list (request.relatedFiles.map Related.File.toJson)) :=
    legible_list fun file member => file.legible (allShort_flatMap.mp files file member)
  have row : ∀ json ∈ request.startRow.map int, Legible (depth + 5) json := by
    intro json found
    obtain ⟨value, isRow, rfl⟩ := Option.map_eq_some_iff.mp found
    exact legible_int.mpr (startRow value (Option.mem_toList.mpr isRow))
  have ranges : ∀ json ∈ request.windows.map Windows.toJson, Legible (depth + 5) json := by
    intro json found
    obtain ⟨value, isWindows, rfl⟩ := Option.map_eq_some_iff.mp found
    exact value.legible (allShort_flatMap.mp windows value (Option.mem_toList.mpr isWindows))
  have preference : ∀ json ∈ request.preferredModel.map PreferredModel.toJson,
      Legible (depth + 5) json := by
    intro json found
    obtain ⟨value, _, rfl⟩ := Option.map_eq_some_iff.mp found
    exact value.legible
  rw [Request.toJson, legible_object]
  simp only [List.forall_mem_append, List.forall_mem_cons, List.not_mem_nil, false_imp_iff,
    implies_true, and_true, legible_string, legible_bool, true_and, changes, related]
  exact ⟨⟨⟨⟨request.editable.legible editable, legible_int.mpr (cursor _ List.mem_cons_self)⟩,
    legible_present row⟩, legible_present ranges⟩, legible_present preference⟩

end Legibility

namespace Request

theorem decode_encode_of_short (request : Request) (short : AllShort request.integers) :
    decode request.encode = .valid request := by
  have reads : read? nestingLimit (request.toJson.write .compact ++ []) = some request.toJson :=
    read?_write readable_compact (request.legible short) (List.forall_mem_nil _)
  rw [List.append_nil] at reads
  rw [decode, readJson, encode, reads]
  exact request.ofJson_toJson

end Request

end NextEdit
