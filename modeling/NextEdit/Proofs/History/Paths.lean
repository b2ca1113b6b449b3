import NextEdit.History

/-! Which spellings of a path the diff headers tell apart. A header shows whether a path starts at the
root and the steps it takes from there, and nothing else: repeated and closing slashes and steps to the
same directory leave it as it is, and the root itself is shown by slashes that no step can have. -/
namespace NextEdit

section Split

variable {separator : Char} {text part : Text}

theorem Text.splitAtChar_eq_splitOn (separator : Char) (text : Text) :
    splitAtChar separator text = text.splitOn separator := by
  induction text with
  | nil => rfl
  | cons char rest ih =>
    obtain ⟨part, parts, split⟩ := List.exists_cons_of_ne_nil (List.splitOn_ne_nil separator rest)
    rw [splitAtChar, ih, List.splitOn_cons_eq_if_modifyHead, split]
    by_cases same : char = separator <;> simp [same]

theorem Text.not_mem_of_mem_splitOn (member : part ∈ text.splitOn separator) : separator ∉ part := by
  induction text generalizing part with
  | nil =>
    rw [List.splitOn_nil, List.mem_singleton] at member
    exact member ▸ List.not_mem_nil
  | cons char rest ih =>
    obtain ⟨first, parts, split⟩ := List.exists_cons_of_ne_nil (List.splitOn_ne_nil separator rest)
    rw [split] at ih
    rw [List.splitOn_cons_eq_if_modifyHead, split] at member
    by_cases same : char = separator
    · rw [if_pos (beq_iff_eq.mpr same)] at member
      rcases List.mem_cons.mp member with rfl | later
      · exact List.not_mem_nil
      · exact ih later
    · rw [if_neg (mt beq_iff_eq.mp same), List.modifyHead_cons] at member
      rcases List.mem_cons.mp member with rfl | later
      · exact List.not_mem_cons_of_ne_of_not_mem (Ne.symm same) (ih List.mem_cons_self)
      · exact ih (List.mem_cons_of_mem first later)

/-- Parts written with a slash in front of each are read back behind what stands in front of them. -/
theorem splitOn_append_steps (front : Text) {parts : List Text} (whole : ∀ part ∈ parts, '/' ∉ part) :
    (front ++ parts.flatMap ('/' :: ·)).splitOn '/' = front.splitOn '/' ++ parts := by
  induction parts generalizing front with
  | nil => rw [List.flatMap_nil, List.append_nil, List.append_nil]
  | cons part rest ih =>
    obtain ⟨unbroken, later⟩ := List.forall_mem_cons.mp whole
    rw [List.flatMap_cons, List.cons_append, List.splitOn_append_cons_self, ih part later,
      List.splitOn_eq_singleton unbroken, List.singleton_append]

end Split

/-- The path starts at the root. -/
def Rooted (path : Text) : Prop :=
  path.head? = some '/'

instance (path : Text) : Decidable (Rooted path) :=
  inferInstanceAs (Decidable (_ = _))

/-- Whether the part at a place between slashes is a step: not an empty one, and a `.` only in the first
place. -/
def isStep (part : Text) (place : Nat) : Bool :=
  !part.isEmpty && (part != ['.'] || place == 0)

/-- The steps that a path takes, from the root or from where it starts. -/
def pathSteps (path : Text) : List Text :=
  ((path.splitOn '/').zipIdx.filter fun item => isStep item.1 item.2).map Prod.fst

section Steps

variable {path other part : Text} {rest : List Text}

/-- Behind a slash all places are alike. -/
theorem steps_from (parts : List Text) (place : Nat) :
    ((parts.zipIdx (place + 1)).filter fun item => isStep item.1 item.2).map Prod.fst =
      parts.filter (isStep · 1) := by
  induction parts generalizing place with
  | nil => rfl
  | cons part rest ih =>
    have alike : isStep part (place + 1) = isStep part 1 := rfl
    rw [List.zipIdx_cons, List.filter_cons, List.filter_cons, alike]
    split
    · rw [List.map_cons, ih]
    · exact ih (place + 1)

theorem pathSteps_append_slash (front back : Text) :
    pathSteps (front ++ '/' :: back) = pathSteps front ++ (back.splitOn '/').filter (isStep · 1) := by
  obtain ⟨first, parts, split⟩ := List.exists_cons_of_ne_nil (List.splitOn_ne_nil '/' front)
  rw [pathSteps, pathSteps, List.splitOn_append_cons_self, List.zipIdx_append, List.filter_append,
    List.map_append, split, List.length_cons, Nat.zero_add, steps_from]

theorem pathSteps_of_split (split : path.splitOn '/' = part :: rest) :
    pathSteps path = (if part.isEmpty then [] else [part]) ++ rest.filter (isStep · 1) := by
  have kept : isStep part 0 = !part.isEmpty := by
    rw [isStep, beq_self_eq_true, Bool.or_true, Bool.and_true]
  rw [pathSteps, split, List.zipIdx_cons, List.filter_cons, kept]
  cases part with
  | nil => exact steps_from rest 0
  | cons char part => exact congrArg ((char :: part) :: ·) (steps_from rest 0)

theorem pathComponents_eq (path : Text) :
    pathComponents path = (if Rooted path then [['/']] else []) ++ pathSteps path := by
  obtain ⟨first, parts, split⟩ := List.exists_cons_of_ne_nil (List.splitOn_ne_nil '/' path)
  have later : (isStep · 1) = fun part : Text => !part.isEmpty && part != ['.'] :=
    funext fun part => congrArg _ (Bool.or_false _)
  rw [pathComponents, Text.splitAtChar_eq_splitOn, pathSteps_of_split split, split, later]
  exact List.append_assoc _ _ _

theorem exists_place_of_mem_pathSteps (member : part ∈ pathSteps path) :
    ∃ place, part ∈ path.splitOn '/' ∧ isStep part place = true := by
  obtain ⟨⟨part, place⟩, found, rfl⟩ := List.mem_map.mp member
  obtain ⟨stands, kept⟩ := List.mem_filter.mp found
  exact ⟨place, List.fst_mem_of_mem_zipIdx stands, kept⟩

theorem ne_nil_of_mem_pathSteps (member : part ∈ pathSteps path) : part ≠ [] := by
  obtain ⟨place, _, kept⟩ := exists_place_of_mem_pathSteps member
  rintro rfl
  cases kept

theorem slash_not_mem_of_mem_pathSteps (member : part ∈ pathSteps path) : '/' ∉ part := by
  obtain ⟨_, stands, _⟩ := exists_place_of_mem_pathSteps member
  exact Text.not_mem_of_mem_splitOn stands

/-- What a header writes for a path, split at its slashes. -/
theorem splitOn_diffPath (path : Text) :
    (diffPath path).splitOn '/' = (if Rooted path then [[], [], []] else [[]]) ++ pathSteps path := by
  have whole : ∀ part ∈ pathSteps path, '/' ∉ part := fun part member =>
    slash_not_mem_of_mem_pathSteps member
  rw [diffPath, pathComponents_eq, List.flatMap_append, splitOn_append_steps _ whole]
  split <;> rfl

/-- The root is shown by empty parts, which no step is. -/
theorem diffPath_ne_of_rooted (relative : ¬ Rooted path) (absolute : Rooted other) :
    diffPath path ≠ diffPath other := by
  intro same
  have parts := congrArg (List.splitOn '/') same
  rw [splitOn_diffPath, splitOn_diffPath, if_neg relative, if_pos absolute] at parts
  have steps : pathSteps path = [] :: [] :: pathSteps other := (List.cons.inj parts).2
  have empty : [] ∈ pathSteps path := steps ▸ List.mem_cons_self
  exact ne_nil_of_mem_pathSteps empty rfl

theorem diffPath_eq_iff :
    diffPath path = diffPath other ↔ (Rooted path ↔ Rooted other) ∧ pathSteps path = pathSteps other := by
  constructor
  · intro same
    have roots : Rooted path ↔ Rooted other := by
      by_cases first : Rooted path <;> by_cases second : Rooted other
      · exact iff_of_true first second
      · exact absurd same.symm (diffPath_ne_of_rooted second first)
      · exact absurd same (diffPath_ne_of_rooted first second)
      · exact iff_of_false first second
    have parts := congrArg (List.splitOn '/') same
    rw [splitOn_diffPath, splitOn_diffPath] at parts
    simp only [roots] at parts
    exact ⟨roots, List.append_cancel_left parts⟩
  · rintro ⟨roots, steps⟩
    rw [diffPath, diffPath, pathComponents_eq, pathComponents_eq, steps]
    simp only [roots]

end Steps

/-- One path in two spellings: a slash written twice, one more behind the path, or a step to the same
directory behind a slash. -/
inductive Respelled : Text → Text → Prop
  | doubled (front back : Text) : Respelled (front ++ '/' :: back) (front ++ '/' :: '/' :: back)
  | closed (full : path ≠ []) : Respelled path (path ++ ['/'])
  | dotted (front back : Text) : Respelled (front ++ '/' :: back) (front ++ '/' :: '.' :: '/' :: back)

namespace Respelled

variable {path other : Text}

theorem rooted_iff (respelled : Respelled path other) : Rooted path ↔ Rooted other := by
  cases respelled with
  | doubled front back => cases front <;> rfl
  | closed full =>
    obtain ⟨char, rest, rfl⟩ := List.exists_cons_of_ne_nil full
    rfl
  | dotted front back => cases front <;> rfl

theorem pathSteps_eq (respelled : Respelled path other) : pathSteps path = pathSteps other := by
  cases respelled with
  | doubled front back =>
    rw [pathSteps_append_slash, pathSteps_append_slash, List.splitOn_cons_eq_if_modifyHead]
    rfl
  | closed full => exact (List.append_nil _).symm.trans (pathSteps_append_slash path []).symm
  | dotted front back =>
    have split : List.splitOn '/' ('.' :: '/' :: back) = ['.'] :: back.splitOn '/' :=
      List.splitOn_append_cons_self ['.'] back
    rw [pathSteps_append_slash, pathSteps_append_slash, split]
    rfl

theorem diffPath_eq (respelled : Respelled path other) : diffPath path = diffPath other :=
  diffPath_eq_iff.mpr ⟨respelled.rooted_iff, respelled.pathSteps_eq⟩

end Respelled

/-- Two spellings give one header path exactly where both start at the root or both do not, and take the
same steps. So a respelled path changes no header of a diff, and no path that starts elsewhere has the
header of one that starts at the root. -/
theorem headers_identify_paths (path other : Text) :
    (diffPath path = diffPath other ↔
      (Rooted path ↔ Rooted other) ∧ pathSteps path = pathSteps other) ∧
    (Respelled path other → ∀ change : Change,
      Change.diffBlock { change with path := path } =
          Change.diffBlock { change with path := other } ∧
        Change.diffBlock { change with oldPath := path } =
          Change.diffBlock { change with oldPath := other }) ∧
    (¬ Rooted path → Rooted other → diffPath path ≠ diffPath other) := by
  refine ⟨diffPath_eq_iff, ?_, diffPath_ne_of_rooted⟩
  intro respelled change
  simp only [Change.diffBlock, respelled.diffPath_eq, and_self]

/-- A change that moved a file. -/
def moved : Change where
  path := "src/./a.rs".toList
  oldPath := "a.rs".toList
  diff := "-1\n".toList
  predicted := false
  inOpenSource := false

/-- A step to the same directory does not show, a start at the root does. -/
theorem headers_identify_paths_of_moved :
    Respelled "src/a.rs".toList "src/./a.rs".toList ∧
      Change.diffBlock { moved with path := "src/a.rs".toList } = moved.diffBlock ∧
      ¬ Rooted "a.rs".toList ∧ Rooted "/a.rs".toList ∧
      diffPath "a.rs".toList ≠ diffPath "/a.rs".toList := by
  have respelled : Respelled "src/a.rs".toList "src/./a.rs".toList :=
    .dotted "src".toList "a.rs".toList
  have relative : ¬ Rooted "a.rs".toList := by decide
  have absolute : Rooted "/a.rs".toList := rfl
  obtain ⟨_, sameBlock, _⟩ := headers_identify_paths "src/a.rs".toList "src/./a.rs".toList
  obtain ⟨_, _, apart⟩ := headers_identify_paths "a.rs".toList "/a.rs".toList
  exact ⟨respelled, (sameBlock respelled moved).1, relative, absolute, apart relative absolute⟩

end NextEdit
