import NextEdit.Proofs.Json.Legibility
import NextEdit.Proofs.Request.RoundTrip

/-! Accepted payloads hold short integers, however they write them: as numbers, as texts or as flags.
So the encoding of what was accepted is accepted again, as the same request. -/
namespace NextEdit

open Json

namespace Checked

/-- What the check gives, if it gives anything, is good. -/
def Gives (checked : Checked α) (good : α → Prop) : Prop :=
  ∀ value, checked = valid value → good value

section Gives

variable {α β : Type} {good : β → Prop}

theorem gives_fail (fault : Fault) : (fail fault).Gives good := nofun

theorem gives_any (checked : Checked β) : checked.Gives fun _ => True :=
  fun _ _ => trivial

theorem gives_valid (holds : good value) : (valid value).Gives good := by
  intro result given
  cases given
  exact holds

theorem gives_map {checked : Checked α} {f : α → β}
    (holds : checked.Gives fun value => good (f value)) : (f <$> checked).Gives good := by
  intro result given
  cases checked with
  | valid value =>
    cases given
    exact holds value rfl
  | invalid issues => cases given

theorem gives_seq {checked : Checked α} {function : Checked (α → β)} {fine : α → Prop}
    (holds : function.Gives fun f => ∀ value, fine value → good (f value))
    (argument : checked.Gives fine) : (function <*> checked).Gives good := by
  intro result given
  cases function with
  | valid f =>
    cases checked with
    | valid value =>
      cases given
      exact holds f rfl value (argument value rfl)
    | invalid issues => cases given
  | invalid issues => cases checked <;> cases given

theorem gives_andThen {checked : Checked α} {next : α → Checked β} (fine : α → Prop)
    (first : checked.Gives fine) (second : ∀ value, fine value → (next value).Gives good) :
    (checked.andThen next).Gives good := by
  cases checked with
  | valid value => exact second value (first value rfl)
  | invalid issues => nofun

theorem gives_within {checked : Checked β} (holds : checked.Gives good) (step : Step) :
    (within step checked).Gives good := by
  cases checked with
  | valid value => exact holds
  | invalid issues => nofun

theorem gives_items {check : α → Checked β} {values : List α}
    (each : ∀ value ∈ values, (check value).Gives good) (index : Nat) :
    (items check index values).Gives fun results => ∀ result ∈ results, good result := by
  induction values generalizing index with
  | nil => exact gives_valid (List.forall_mem_nil _)
  | cons value values ih =>
    have here := gives_within (each value List.mem_cons_self) (.item index)
    have later := ih (fun other member => each other (List.mem_cons_of_mem _ member)) (index + 1)
    refine gives_seq (gives_map ?_) later
    exact fun result given others all => List.forall_mem_cons.mpr ⟨here result given, all⟩

end Gives

end Checked

namespace Json

/-- The value could have been read. -/
def IsLegible (json : Json) : Prop :=
  ∃ depth, Legible depth json

section Parts

theorem IsLegible.member {members : List (Text × Json)} {member : Text × Json}
    (legible : (object members).IsLegible) (isMember : member ∈ members) : member.2.IsLegible := by
  obtain ⟨depth, legible⟩ := legible
  cases depth with
  | zero =>
    rw [show members = [] from legible] at isMember
    cases isMember
  | succ depth => exact ⟨depth, legible member isMember⟩

theorem IsLegible.item {items : List Json} {item : Json} (legible : (list items).IsLegible)
    (member : item ∈ items) : item.IsLegible := by
  obtain ⟨depth, legible⟩ := legible
  cases depth with
  | zero =>
    rw [show items = [] from legible] at member
    cases member
  | succ depth => exact ⟨depth, legible item member⟩

theorem mem_of_member? (found : member? name members = some json) : (name, json) ∈ members := by
  obtain ⟨⟨key, value⟩, here, rfl⟩ := Option.map_eq_some_iff.mp found
  have same := List.find?_some here
  cases beq_iff_eq.mp same
  exact List.mem_reverse.mp (List.mem_of_find?_eq_some here)

variable {α : Type} {members : List (Text × Json)} {check : Json → Checked α} {good : α → Prop}

theorem gives_required (legible : (object members).IsLegible)
    (each : ∀ json : Json, json.IsLegible → (check json).Gives good) (name : Text) :
    (required name check members).Gives good := by
  refine Checked.gives_within ?_ _
  cases found : member? name members with
  | none => exact Checked.gives_fail _
  | some json => exact each json (legible.member (mem_of_member? found))

theorem gives_optional (legible : (object members).IsLegible) (default : good absent)
    (each : ∀ json : Json, json.IsLegible → (check json).Gives good) (name : Text) :
    (Json.optional name absent check members).Gives good := by
  rw [Json.optional]
  cases found : member? name members with
  | none => exact Checked.gives_valid default
  | some json => exact Checked.gives_within (each json (legible.member (mem_of_member? found))) _

/-- A member that may be absent or null. -/
theorem gives_optional_none (legible : (object members).IsLegible)
    (each : ∀ json : Json, json.IsLegible → (check json).Gives good) (name : Text) :
    (Json.optional name none (checkOptional check) members).Gives fun found =>
      ∀ value ∈ found, good value := by
  refine gives_optional legible nofun (fun json legible => ?_) name
  unfold checkOptional
  split
  · exact Checked.gives_valid nofun
  · refine Checked.gives_map fun value given other same => ?_
    cases same
    exact each json legible value given

theorem gives_checkList (each : ∀ json : Json, json.IsLegible → (check json).Gives good)
    (json : Json) (legible : json.IsLegible) :
    (checkList check json).Gives fun values => ∀ value ∈ values, good value := by
  cases json with
  | list items =>
    exact Checked.gives_items (fun item member => each item (legible.item member)) 0
  | _ => exact Checked.gives_fail _

theorem gives_checkObject {check : List (Text × Json) → Checked α}
    (each : ∀ members, (object members).IsLegible → (check members).Gives good)
    (json : Json) (legible : json.IsLegible) : (checkObject check json).Gives good := by
  cases json with
  | object members => exact each members legible
  | _ => exact Checked.gives_fail _

end Parts

end Json

section Integers

theorem Numeral.isShort_of_readUnsigned (reads : readUnsigned negative text = .ok value) :
    IsShort value := by
  simp only [readUnsigned] at reads
  split at reads
  · cases reads
  · rename_i wellFormed
    split at reads
    · cases reads
    · rename_i few
      split at reads
      · cases reads
      · cases reads
        obtain ⟨full, _⟩ := not_or.mp wellFormed
        refine isShort_of_digits (fun empty => full (List.isEmpty_iff.mpr empty)) ?_
          (Nat.not_lt.mp few) _
        exact List.all_eq_true.mp List.all_takeWhile

/-- The reader of numerals in texts takes no more digits than the reader of numbers. -/
theorem Numeral.isShort_of_readExact (reads : readExact text = .ok value) : IsShort value := by
  unfold readExact at reads
  split at reads <;> exact isShort_of_readUnsigned reads

theorem Numeral.isShort_of_readLenient (reads : readLenient text = .ok value) : IsShort value := by
  unfold readLenient at reads
  split at reads
  · split at reads
    · rename_i tidied
      cases reads
      obtain ⟨form, _, exact⟩ := Option.map_eq_some_iff.mp tidied
      exact isShort_of_readExact exact
    · cases reads
  · exact isShort_of_readExact reads

theorem Json.Real.gives_checkInteger (value : Real) : value.checkInteger.Gives Numeral.IsShort := by
  unfold Real.checkInteger
  split
  · exact Checked.gives_fail _
  · exact Checked.gives_fail _
  · split
    · exact Checked.gives_fail _
    · split
      · exact Checked.gives_fail _
      · rename_i size _
        split
        · rename_i word
          apply Checked.gives_valid
          have small : size < Nat.pow 10 19 := Nat.lt_of_lt_of_le word (by decide)
          apply Numeral.isShort_of_lt (show 0 < 19 by decide) (by decide)
          split
          · rwa [Int.natAbs_neg]
          · exact small
        · exact Checked.gives_fail _

theorem gives_checkInteger (json : Json) (legible : json.IsLegible) :
    (checkInteger json).Gives Numeral.IsShort := by
  cases json with
  | int value =>
    obtain ⟨depth, legible⟩ := legible
    exact Checked.gives_valid (legible_int.mp legible)
  | bool value => exact Checked.gives_valid (by cases value <;> decide)
  | real value => exact value.gives_checkInteger
  | string value =>
    intro integer given
    simp only [checkInteger, integerOfText] at given
    split at given
    · rename_i reads
      cases given
      exact Numeral.isShort_of_readLenient reads
    · cases given
    · cases given
  | _ => exact Checked.gives_fail _

theorem gives_checkNatural (json : Json) (legible : json.IsLegible) :
    (checkNatural json).Gives fun value => Numeral.IsShort value := by
  refine Checked.gives_andThen Numeral.IsShort (gives_checkInteger json legible) ?_
  intro value short
  by_cases negative : value < 0
  · rw [if_pos negative]
    exact Checked.gives_fail _
  · rw [if_neg negative]
    apply Checked.gives_valid
    rwa [Int.toNat_of_nonneg (Int.not_lt.mp negative)]

end Integers

section Requests

theorem Span.gives_ofJson (json : Json) (legible : json.IsLegible) :
    (Span.ofJson json).Gives fun span => AllShort span.integers := by
  refine gives_checkObject (fun members legible => ?_) json legible
  have bound := gives_required legible gives_checkNatural
  refine Checked.gives_andThen
    (fun bounds => Numeral.IsShort bounds.1 ∧ Numeral.IsShort bounds.2) ?_ ?_
  · refine Checked.gives_seq (Checked.gives_map ?_) (bound _)
    exact fun start given stop short => ⟨bound _ start given, short⟩
  · rintro ⟨start, stop⟩ ⟨first, last⟩
    dsimp only
    split
    · exact Checked.gives_valid (by simp [Span.integers, first, last])
    · exact Checked.gives_fail _

theorem Related.Excerpt.gives_ofJson (json : Json) (legible : json.IsLegible) :
    (Related.Excerpt.ofJson json).Gives fun excerpt => AllShort excerpt.rows.integers := by
  refine gives_checkObject (fun members legible => ?_) json legible
  refine Checked.gives_seq (Checked.gives_map ?_) (Checked.gives_any _)
  exact fun rows given text _ => gives_required legible Span.gives_ofJson _ rows given

theorem Related.File.gives_ofJson (json : Json) (legible : json.IsLegible) :
    (Related.File.ofJson json).Gives fun file => AllShort file.integers := by
  refine gives_checkObject (fun members legible => ?_) json legible
  have row := gives_required legible gives_checkNatural "max_row".toList
  have excerpts := gives_optional legible (List.forall_mem_nil _)
    (gives_checkList Related.Excerpt.gives_ofJson) "excerpts".toList
  refine Checked.gives_seq (Checked.gives_seq (Checked.gives_seq (Checked.gives_map ?_) row)
    excerpts) (Checked.gives_any _)
  intro path _ maxRow short excerpts all inOpenSource _
  exact allShort_cons.mpr ⟨short, allShort_flatMap.mpr all⟩

theorem Windows.gives_check {narrow medium wide : Window}
    (short : AllShort (narrow.integers ++ medium.integers ++ wide.integers)) :
    (Windows.check narrow medium wide).Gives fun windows => AllShort windows.integers := by
  unfold Windows.check
  split
  · split
    · split
      · exact Checked.gives_valid short
      · exact Checked.gives_fail _
    · exact Checked.gives_fail _
  · exact Checked.gives_fail _

theorem Windows.gives_ofJson (json : Json) (legible : json.IsLegible) :
    (Windows.ofJson json).Gives fun windows => AllShort windows.integers := by
  refine gives_checkObject (fun members legible => ?_) json legible
  have span := gives_required legible Span.gives_ofJson
  refine Checked.gives_andThen (fun windows : Window × Window × Window =>
    AllShort (windows.1.integers ++ windows.2.1.integers ++ windows.2.2.integers)) ?_
    fun _ short => Windows.gives_check short
  refine Checked.gives_seq (Checked.gives_seq (Checked.gives_seq (Checked.gives_seq
    (Checked.gives_seq (Checked.gives_map ?_) (span _)) (span _)) (span _)) (span _)) (span _)
  intro narrow given medium mediumShort wide wideShort narrowContext narrowContextShort
    mediumContext mediumContextShort wideContext wideContextShort
  simp only [Window.integers, allShort_append]
  exact ⟨⟨⟨span _ narrow given, narrowContextShort⟩, mediumShort, mediumContextShort⟩,
    wideShort, wideContextShort⟩

theorem Request.gives_ofJson (json : Json) (legible : json.IsLegible) :
    (Request.ofJson json).Gives fun request => AllShort request.integers := by
  refine gives_checkObject (fun members legible => ?_) json legible
  have editable := gives_required legible Span.gives_ofJson "editable_range".toList
  have cursor := gives_required legible gives_checkNatural "cursor_offset".toList
  have row := gives_optional_none legible gives_checkInteger "excerpt_start_row".toList
  have files := gives_optional legible (List.forall_mem_nil _)
    (gives_checkList Related.File.gives_ofJson) "related_files".toList
  have windows := gives_optional_none legible Windows.gives_ofJson "excerpt_ranges".toList
  refine Checked.gives_seq (Checked.gives_seq (Checked.gives_seq (Checked.gives_seq
    (Checked.gives_seq (Checked.gives_seq (Checked.gives_seq (Checked.gives_seq (Checked.gives_seq
    (Checked.gives_map ?_) (Checked.gives_any _)) editable) cursor) row) (Checked.gives_any _))
    files) windows) (Checked.gives_any _)) (Checked.gives_any _)
  intro path _ excerpt _ editable editableShort cursor cursorShort row rowShort changes _ files
    filesShort windows windowsShort model _ inOpenSource _
  simp only [Request.integers, allShort_append, allShort_flatMap, Option.mem_toList]
  exact ⟨⟨⟨⟨editableShort, allShort_cons.mpr ⟨cursorShort, allShort_nil⟩⟩,
    fun value member => rowShort value (Option.mem_toList.mp member)⟩, filesShort⟩, windowsShort⟩

end Requests

namespace Request

theorem short_of_decode (accepted : decode payload = .valid request) :
    AllShort request.integers := by
  unfold decode readJson at accepted
  split at accepted
  · rename_i json reads
    exact gives_ofJson json ⟨nestingLimit, legible_of_read? reads⟩ request accepted
  · cases accepted

/-- The form that an accepted payload takes when it is written again. -/
def canonical (payload : Text) : Checked Text :=
  encode <$> decode payload

/-- Decoding undoes encoding, and encoding what was accepted gives a payload that stays as it is. -/
theorem decode_encode :
    (∀ request : Request, AllShort request.integers → decode request.encode = .valid request) ∧
      ∀ payload request, decode payload = .valid request →
        canonical payload = .valid request.encode ∧
          canonical request.encode = .valid request.encode := by
  refine ⟨decode_encode_of_short, fun payload request accepted => ?_⟩
  have again := decode_encode_of_short request (short_of_decode accepted)
  rw [canonical, canonical, accepted, again]
  exact ⟨rfl, rfl⟩

/-- A payload that writes its integers as a flag, a fraction and a text. -/
def loosePayload : Text :=
  "\x7b\"cursor_path\": \"\\ud83d\\ude00\", \"cursor_excerpt\": \"a\\n\", \"cursor_offset\": \" 0_1 \", ".toList ++
    "\"editable_range\": \x7b\"start\": false, \"end\": 2e0\x7d, \"excerpt_start_row\": -7, \"other\": []\x7d".toList

def looseRequest : Request where
  path := [Char.ofNat 0x1F600]
  excerpt := ['a', '\n']
  editable := { start := 0, stop := 2 }
  cursor := 1
  startRow := some (-7)
  changes := []
  relatedFiles := []
  windows := none
  preferredModel := none
  inOpenSource := false

theorem decode_encode_loose :
    AllShort looseRequest.integers ∧ decode looseRequest.encode = .valid looseRequest ∧
      decode loosePayload = .valid looseRequest ∧
      canonical looseRequest.encode = .valid looseRequest.encode := by
  have short : AllShort looseRequest.integers := by decide
  have accepted : decode loosePayload = .valid looseRequest := by decide +kernel
  exact ⟨short, decode_encode.1 looseRequest short, accepted,
    (decode_encode.2 loosePayload looseRequest accepted).2⟩

end Request

end NextEdit
