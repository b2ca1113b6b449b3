import NextEdit.Proofs.Legacy.Markers
import NextEdit.Proofs.Text.Lines
import NextEdit.Proofs.Text.Slices

/-! Where the region of an answer lies. Both readings cut it out from the same start, up to stops that
differ only in an answer without an end marker. Start and stops are boundaries of the text, so a
region stands whole between what is in front of it and what is behind; where it would stop in front of
its start, it is empty. -/
namespace NextEdit.Legacy

section Start

variable {content lead : Text}

theorem innerStart_of_free (free : ¬ Marker.regionStart <:+: content) : innerStart content = 0 := by
  rw [innerStart, Text.splitFirst?_eq_none free]

theorem innerStart_of_first (free : ¬ Marker.regionStart <:+: lead) (rest : Text) :
    innerStart (lead ++ (Marker.regionStart ++ rest)) =
      Text.byteCount (lead ++ Marker.regionStart) + (if rest.head? = some '\n' then 1 else 0) := by
  rw [innerStart, splitFirst?_marker regionStart_mem free, Text.byteCount_append]

theorem isBoundary_innerStart (content : Text) : content.isBoundary (innerStart content) = true := by
  by_cases found : Marker.regionStart <:+: content
  · obtain ⟨lead, rest, rfl, free⟩ := exists_first regionStart_mem found
    rw [innerStart_of_first free]
    split
    · rename_i newline
      obtain ⟨more, rfl⟩ := List.head?_eq_some_iff.mp newline
      have stands : lead ++ Marker.regionStart ++ ['\n'] <+: lead ++ (Marker.regionStart ++ '\n' :: more) :=
        ⟨more, by simp only [List.append_assoc, List.cons_append, List.nil_append]⟩
      have place := Text.isBoundary_of_isPrefix stands
      rwa [Text.byteCount_append] at place
    · exact Text.isBoundary_of_isPrefix ⟨rest, List.append_assoc _ _ _⟩
  · rw [innerStart_of_free found]
    exact Text.isBoundary_byteCount [] content

end Start

section Stop

variable {content before : Text}

/-- Where the lenient reading stops: without an end marker, with the text. -/
def innerStop (content : Text) : Nat :=
  (innerStop? content).getD content.byteCount

/-- Where the strict reading stops: without an end marker, in front of a final newline. -/
def strictStop (content : Text) : Nat :=
  (innerStop? content).getD (Text.dropEnding ['\n'] content).byteCount

theorem innerStop?_of_free (free : ¬ Marker.regionEnd <:+: content) : innerStop? content = none := by
  rw [innerStop?, Text.splitFirst?_eq_none free]
  rfl

theorem innerStop?_of_first (free : ¬ Marker.regionEnd <:+: before) (rest : Text) :
    innerStop? (before ++ (Marker.regionEnd ++ rest)) =
      some (Text.dropEnding ['\n'] before).byteCount := by
  rw [innerStop?, splitFirst?_marker regionEnd_mem free, Text.byteCount_dropEnding_newline]
  rfl

theorem strictStop_eq (found : Marker.regionEnd <:+: content) :
    strictStop content = innerStop content := by
  obtain ⟨before, rest, rfl, free⟩ := exists_first regionEnd_mem found
  rw [strictStop, innerStop, innerStop?_of_first free]
  rfl

theorem innerStop_of_free (free : ¬ Marker.regionEnd <:+: content) :
    innerStop content = content.byteCount := by
  rw [innerStop, innerStop?_of_free free]
  rfl

theorem strictStop_of_free (free : ¬ Marker.regionEnd <:+: content) :
    strictStop content = (Text.dropEnding ['\n'] content).byteCount := by
  rw [strictStop, innerStop?_of_free free]
  rfl

/-- What stands in front of the first end marker reaches to where both readings stop. -/
theorem strictStop_of_first (free : ¬ Marker.regionEnd <:+: before) (rest : Text) :
    strictStop (before ++ (Marker.regionEnd ++ rest)) = (Text.dropEnding ['\n'] before).byteCount := by
  rw [strictStop, innerStop?_of_first free]
  rfl

theorem isBoundary_strictStop (content : Text) : content.isBoundary (strictStop content) = true := by
  by_cases found : Marker.regionEnd <:+: content
  · obtain ⟨before, rest, rfl, free⟩ := exists_first regionEnd_mem found
    rw [strictStop_of_first free]
    exact Text.isBoundary_of_isPrefix ((Text.dropEnding_isPrefix _ _).trans (List.prefix_append _ _))
  · rw [strictStop_of_free found]
    exact Text.isBoundary_of_isPrefix (Text.dropEnding_isPrefix _ _)

theorem isBoundary_innerStop (content : Text) : content.isBoundary (innerStop content) = true := by
  by_cases found : Marker.regionEnd <:+: content
  · rw [← strictStop_eq found]
    exact isBoundary_strictStop content
  · rw [innerStop_of_free found]
    exact Text.isBoundary_of_isPrefix List.prefix_rfl

end Stop

section Inner

variable {content text : Text} {stop : Nat}

/-- The text from the start of the region to a stop. -/
def innerUntil (stop : Nat) (content : Text) : Text :=
  Text.between (min (innerStart content) stop) stop content

/-- A region that stops behind its start is a part of the text. -/
theorem exists_parts_of_innerUntil (boundary : content.isBoundary stop = true)
    (ordered : innerStart content ≤ stop) :
    ∃ front back, content = front ++ (innerUntil stop content ++ back) ∧
      front.byteCount = innerStart content ∧
      front.byteCount + (innerUntil stop content).byteCount = stop := by
  obtain ⟨front, middle, back, parts, start, place⟩ :=
    Text.exists_parts (isBoundary_innerStart content) boundary ordered
  have inner : innerUntil stop content = middle := by
    rw [innerUntil, Nat.min_eq_left ordered, ← start, ← place, parts, Text.between_append]
  exact ⟨front, back, inner ▸ parts, start, inner ▸ place⟩

theorem innerUntil_eq_nil (boundary : content.isBoundary stop = true)
    (crossed : stop ≤ innerStart content) : innerUntil stop content = [] := by
  obtain ⟨front, back, parts, place⟩ := Text.isBoundary_iff.mp boundary
  rw [innerUntil, Nat.min_eq_right crossed, parts, ← place]
  exact Text.between_append front [] back

/-- A region that holds anything stops behind its start. -/
theorem innerStart_le_of_infix (full : text ≠ []) (boundary : content.isBoundary stop = true)
    (inside : text <:+: innerUntil stop content) : innerStart content ≤ stop := by
  apply Nat.le_of_not_le
  intro crossed
  rw [innerUntil_eq_nil boundary crossed] at inside
  exact full (List.infix_nil.mp inside)

theorem innerUntil_isInfix (stop : Nat) (content : Text) : innerUntil stop content <:+: content :=
  Text.infix_between _ _ _

/-- The region stops in front of its start: its markers stand in the wrong order, or claim the same
newline. -/
def Crossed (content : Text) : Prop :=
  innerStop content < innerStart content

instance (content : Text) : Decidable (Crossed content) :=
  inferInstanceAs (Decidable (_ < _))

theorem region_eq (content : Text) : region content = innerUntil (innerStop content) content := by
  by_cases crossed : innerStop content < innerStart content
  · rw [innerUntil_eq_nil (isBoundary_innerStop content) (Nat.le_of_lt crossed)]
    exact if_pos crossed
  · rw [innerUntil, Nat.min_eq_left (Nat.not_lt.mp crossed)]
    exact if_neg crossed

theorem region_of_crossed (crossed : Crossed content) : region content = [] :=
  if_pos crossed

/-- A region that is not crossed is a part of the answer. -/
theorem exists_parts_of_region (uncrossed : ¬ Crossed content) :
    ∃ front back, content = front ++ (region content ++ back) ∧
      front.byteCount = innerStart content ∧
      front.byteCount + (region content).byteCount = innerStop content := by
  rw [region_eq]
  exact exists_parts_of_innerUntil (isBoundary_innerStop content) (Nat.not_lt.mp uncrossed)

/-- The strict reading gives the region up to its own stop, unless a marker is repeated. -/
theorem extract_eq_ok_iff : extract answer = .ok text ↔
    repeatedMarker? (withoutCursors answer) = none ∧
      text = innerUntil (strictStop (withoutCursors answer)) (withoutCursors answer) := by
  cases twice : repeatedMarker? (withoutCursors answer) with
  | some error => simp [extract, twice]
  | none =>
    simp only [extract, twice, strictStop, Text.byteCount_dropEnding_newline, Except.ok.injEq,
      true_and]
    exact eq_comm

end Inner

end NextEdit.Legacy
