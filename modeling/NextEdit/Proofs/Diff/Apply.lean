import NextEdit.Proofs.Diff.Hunks
import NextEdit.Proofs.Diff.Trim
import NextEdit.Proofs.Text.Lines
import NextEdit.Proofs.Text.Measure

/-! Edits applied to a buffer. Walking the hunks, the bytes in front of the next hunk are either
settled, which the edits so far account for, or pending, which the next edit copies; what comes out
is the new text in the place of the old. Edits cut the old text between its characters, in order and
apart. -/
namespace NextEdit.Diff

/-- The edit replaces a stretch of whole characters of a text that stands at `offset`. -/
def Edit.Cuts (edit : Edit) (offset : Int) (text : Text) : Prop :=
  ∃ front cut back : Text, text = front ++ (cut ++ back) ∧ edit.start = offset + front.byteCount ∧
    edit.stop = offset + (front.byteCount + cut.byteCount)

namespace Edit

theorem Turns.cuts {edit : Edit} (turns : edit.Turns offset old new) : edit.Cuts offset old := by
  obtain ⟨front, cut, back, oldParts, _, start, stop⟩ := turns
  exact ⟨front, cut, back, oldParts, start, stop⟩

theorem Cuts.after {edit : Edit} {whole : Text} (before : Text)
    (cuts : edit.Cuts (offset + before.byteCount) whole) : edit.Cuts offset (before ++ whole) := by
  obtain ⟨front, cut, back, rfl, start, stop⟩ := cuts
  refine ⟨before ++ front, cut, back, (List.append_assoc _ _ _).symm, ?_, ?_⟩
  · rw [start, Text.byteCount_append]; omega
  · rw [stop, Text.byteCount_append]; omega

theorem Cuts.before {edit : Edit} {whole : Text} (after : Text) (cuts : edit.Cuts offset whole) :
    edit.Cuts offset (whole ++ after) := by
  obtain ⟨front, cut, back, rfl, start, stop⟩ := cuts
  exact ⟨front, cut, back ++ after, by simp only [List.append_assoc], start, stop⟩

theorem Cuts.offset_le_start {edit : Edit} {whole : Text} (cuts : edit.Cuts offset whole) :
    offset ≤ edit.start := by
  obtain ⟨front, cut, back, _, start, _⟩ := cuts
  omega

theorem Cuts.start_le_stop {edit : Edit} {whole : Text} (cuts : edit.Cuts offset whole) :
    edit.start ≤ edit.stop := by
  obtain ⟨front, cut, back, _, start, stop⟩ := cuts
  omega

theorem Cuts.stop_le {edit : Edit} {whole : Text} (cuts : edit.Cuts offset whole) :
    edit.stop ≤ offset + whole.byteCount := by
  obtain ⟨front, cut, back, rfl, _, stop⟩ := cuts
  simp only [Text.byteCount_append]
  omega

/-- Both ends of the stretch are character boundaries of the text. -/
theorem Cuts.boundaries {edit : Edit} {whole : Text} (cuts : edit.Cuts offset whole) :
    ∃ start stop : Nat, edit.start = offset + start ∧ edit.stop = offset + stop ∧ start ≤ stop ∧
      stop ≤ whole.byteCount ∧ whole.isBoundary start ∧ whole.isBoundary stop := by
  have inside := cuts.stop_le
  obtain ⟨front, cut, back, parts, start, stop⟩ := cuts
  refine ⟨front.byteCount, front.byteCount + cut.byteCount, start, by omega, by omega, by omega,
    ?_, ?_⟩
  · exact Text.isBoundary_iff.mpr ⟨front, cut ++ back, parts, rfl⟩
  · exact Text.isBoundary_iff.mpr
      ⟨front ++ cut, back, by rw [parts, List.append_assoc], Text.byteCount_append front cut⟩

/-- Offsets that are places and in order pass every check. -/
theorem check_eq_valid {edit : Edit} (start : 0 ≤ edit.start) (ordered : edit.start ≤ edit.stop) :
    edit.check = .valid edit := by
  have stop : 0 ≤ edit.stop := Int.le_trans start ordered
  have inOrder : ¬ edit.stop.toNat < edit.start.toNat := Nat.not_lt.mpr (Int.toNat_le_toNat ordered)
  simp only [Edit.check, if_neg (Int.not_lt.mpr start), if_neg (Int.not_lt.mpr stop)]
  exact if_neg inOrder

end Edit

theorem checkEdits_eq_valid {edits : List Edit}
    (places : ∀ edit ∈ edits, 0 ≤ edit.start ∧ edit.start ≤ edit.stop) :
    checkEdits edits = .valid edits := by
  induction edits with
  | nil => rfl
  | cons edit rest ih =>
    obtain ⟨⟨start, ordered⟩, later⟩ := List.forall_mem_cons.mp places
    rw [checkEdits, Edit.check_eq_valid start ordered, ih later]
    rfl

/-- The text that hunks of lines compare. -/
def oldText (hunks : List (Hunk Text)) : Text :=
  (hunks.flatMap Hunk.old).flatten

def newText (hunks : List (Hunk Text)) : Text :=
  (hunks.flatMap Hunk.new).flatten

theorem oldText_cons (hunk : Hunk Text) (rest : List (Hunk Text)) :
    oldText (hunk :: rest) = hunk.old.flatten ++ oldText rest := by
  rw [oldText, List.flatMap_cons, List.flatten_append, oldText]

theorem newText_cons (hunk : Hunk Text) (rest : List (Hunk Text)) :
    newText (hunk :: rest) = hunk.new.flatten ++ newText rest := by
  rw [newText, List.flatMap_cons, List.flatten_append, newText]

theorem oldText_append (front back : List (Hunk Text)) :
    oldText (front ++ back) = oldText front ++ oldText back := by
  rw [oldText, List.flatMap_append, List.flatten_append, oldText, oldText]

/-- Every edit is that of a change among the hunks, at the place where its old lines start. -/
theorem exists_change_of_mem_editsOf {hunks : List (Hunk Text)}
    (member : edit ∈ editsOf offset hunks) :
    ∃ earlier old new later, hunks = earlier ++ .change old new :: later ∧
      edit = Edit.ofChange (offset + (oldText earlier).byteCount) old.flatten new.flatten ∧
      edit.isIdle = false := by
  induction hunks generalizing offset with
  | nil => simp [editsOf] at member
  | cons hunk rest ih =>
    have later (inRest : edit ∈ editsOf (offset + Text.byteCount hunk.old.flatten) rest) :
        ∃ earlier old new later, hunk :: rest = earlier ++ .change old new :: later ∧
          edit = Edit.ofChange (offset + (oldText earlier).byteCount) old.flatten new.flatten ∧
          edit.isIdle = false := by
      obtain ⟨earlier, old, new, later, rfl, place, acts⟩ := ih inRest
      refine ⟨hunk :: earlier, old, new, later, rfl, ?_, acts⟩
      rw [place, oldText_cons, Text.byteCount_append, Int.natCast_add, Int.add_assoc]
    cases hunk with
    | keep items => exact later member
    | change old new =>
      simp only [editsOf] at member
      split at member
      · exact later member
      · rename_i acts
        rcases List.mem_cons.mp member with rfl | inRest
        · refine ⟨[], old, new, rest, rfl, ?_, Bool.eq_false_iff.mpr acts⟩
          exact congrArg (Edit.ofChange · _ _) (Int.add_zero offset).symm
        · exact later inRest

theorem cuts_of_mem_editsOf {hunks : List (Hunk Text)} (member : edit ∈ editsOf offset hunks) :
    edit.Cuts offset (oldText hunks) := by
  obtain ⟨earlier, old, new, later, rfl, rfl, _⟩ := exists_change_of_mem_editsOf member
  rw [oldText_append, oldText_cons]
  exact ((Edit.ofChange_turns _ old.flatten new.flatten).cuts.before _).after _

/-- Past a hunk that keeps something, edits start beyond the place where the hunk starts. -/
private theorem lt_start_of_keeps {hunk : Hunk Text} (keeps : hunk.Keeps)
    (nonempty : ∀ line ∈ hunk.old, line ≠ []) (member : edit ∈ editsOf offset (hunk :: rest)) :
    offset < edit.start := by
  cases hunk with
  | change old new => exact keeps.elim
  | keep items =>
    obtain ⟨line, lines, rfl⟩ := List.exists_cons_of_ne_nil keeps
    have inRest : edit ∈ editsOf (offset + Text.byteCount (line :: lines).flatten) rest := member
    have bound := (cuts_of_mem_editsOf inRest).offset_le_start
    have := Text.byteCount_pos (nonempty line List.mem_cons_self)
    rw [List.flatten_cons, Text.byteCount_append] at bound
    omega

theorem pairwise_editsOf {hunks : List (Hunk Text)} (apart : Apart hunks)
    (nonempty : ∀ hunk ∈ hunks, ∀ line ∈ hunk.old, line ≠ []) (offset : Int) :
    (editsOf offset hunks).Pairwise fun earlier later => earlier.stop < later.start := by
  induction hunks generalizing offset with
  | nil => exact .nil
  | cons hunk rest ih =>
    obtain ⟨linked, apartRest⟩ := List.isChain_cons.mp apart
    obtain ⟨_, nonemptyRest⟩ := List.forall_mem_cons.mp nonempty
    have later := ih apartRest nonemptyRest (offset + Text.byteCount hunk.old.flatten)
    cases hunk with
    | keep items => exact later
    | change old new =>
      simp only [editsOf]
      split
      · exact later
      · refine List.pairwise_cons.mpr ⟨?_, later⟩
        intro edit member
        have ends := (Edit.ofChange_turns offset old.flatten new.flatten).cuts.stop_le
        refine Int.lt_of_le_of_lt ends ?_
        cases rest with
        | nil => simp [editsOf] at member
        | cons next rest =>
          rcases linked next rfl with none | keeps
          · exact none.elim
          · exact lt_start_of_keeps keeps (nonemptyRest next List.mem_cons_self) member

/-- One edit copies the pending bytes and the shared start, and leaves the shared end pending. -/
theorem applyFrom_turns {offset : Int} {edit : Edit} {settled pending rest : Octets}
    (turns : edit.Turns offset old new) (place : offset = settled.length + pending.length)
    (parts : buffer = settled ++ (pending ++ (Text.encode old ++ rest))) :
    ∃ copied settledNext pendingNext : Octets,
      buffer = settledNext ++ (pendingNext ++ rest) ∧
      offset + old.byteCount = settledNext.length + pendingNext.length ∧
      copied ++ pendingNext = pending ++ Text.encode new ∧
      ∀ later, applyFrom buffer settled.length (edit :: later) =
        copied ++ applyFrom buffer settledNext.length later := by
  obtain ⟨front, cut, back, rfl, rfl, start, stop⟩ := turns
  refine ⟨pending ++ (Text.encode front ++ Text.encode edit.text),
    settled ++ (pending ++ (Text.encode front ++ Text.encode cut)), Text.encode back,
    ?_, ?_, ?_, ?_⟩
  · simp only [parts, Text.encode_append, List.append_assoc]
  · simp only [place, List.length_append, Text.length_encode, Text.byteCount_append]
    omega
  · simp only [Text.encode_append, List.append_assoc]
  · intro later
    have copyLength :
        edit.start.toNat - settled.length = (pending ++ Text.encode front).length := by
      rw [List.length_append, Text.length_encode]
      omega
    have settledLength : edit.stop.toNat =
        (settled ++ (pending ++ (Text.encode front ++ Text.encode cut))).length := by
      simp only [List.length_append, Text.length_encode]
      omega
    have copied : ((buffer.drop settled.length).take (edit.start.toNat - settled.length)) =
        pending ++ Text.encode front := by
      rw [parts, List.drop_left, copyLength]
      simp only [Text.encode_append, ← List.append_assoc]
      simp only [List.append_assoc (pending ++ Text.encode front), List.take_left]
    rw [applyFrom, copied, settledLength]
    simp only [List.append_assoc]

theorem applyFrom_editsOf {offset : Int} {hunks : List (Hunk Text)} {settled pending tail : Octets}
    (place : offset = settled.length + pending.length)
    (parts : buffer = settled ++ (pending ++ (Text.encode (oldText hunks) ++ tail))) :
    applyFrom buffer settled.length (editsOf offset hunks) =
      pending ++ (Text.encode (newText hunks) ++ tail) := by
  induction hunks generalizing offset settled pending with
  | nil => simp only [editsOf, applyFrom, parts, List.drop_left, oldText, newText, List.flatMap_nil]
  | cons hunk rest ih =>
    rw [oldText_cons, Text.encode_append, List.append_assoc] at parts
    rw [newText_cons, Text.encode_append]
    -- A hunk without an edit leaves its lines pending; the old and the new lines are the same.
    have unedited : hunk.old.flatten = hunk.new.flatten →
        applyFrom buffer settled.length
            (editsOf (offset + Text.byteCount hunk.old.flatten) rest) =
          pending ++ ((Text.encode hunk.new.flatten ++ Text.encode (newText rest)) ++ tail) := by
      intro same
      have placeNext : offset + Text.byteCount hunk.old.flatten =
          settled.length + (pending ++ Text.encode hunk.old.flatten).length := by
        rw [List.length_append, Text.length_encode]
        omega
      rw [ih placeNext (by rw [parts, List.append_assoc]), same]
      simp only [List.append_assoc]
    cases hunk with
    | keep items => exact unedited rfl
    | change old new =>
      have turns := Edit.ofChange_turns offset old.flatten new.flatten
      simp only [editsOf]
      split
      · rename_i idle
        exact unedited (turns.eq_of_isIdle idle)
      · obtain ⟨copied, settledNext, pendingNext, partsNext, placeNext, joined, step⟩ :=
          applyFrom_turns turns place parts
        rw [step]
        refine (congrArg (copied ++ ·) (ih placeNext partsNext)).trans ?_
        simp only [← List.append_assoc, joined]
        rfl

theorem oldText_hunks (old new : Text) :
    oldText (hunks old.splitLines new.splitLines) = old := by
  rw [oldText, flatMap_old_hunks, Text.flatten_splitLines]

theorem newText_hunks (old new : Text) :
    newText (hunks old.splitLines new.splitLines) = new := by
  rw [newText, flatMap_new_hunks, Text.flatten_splitLines]

theorem cuts_of_mem_edits (member : edit ∈ edits offset old new) : edit.Cuts offset old := by
  rw [← oldText_hunks old new]
  exact cuts_of_mem_editsOf member

/-- A text is turned into itself by no edit. -/
theorem edits_self (offset : Int) (text : Text) : edits offset text text = [] := by
  rw [edits]
  by_cases empty : text.splitLines = []
  · rw [empty]
    rfl
  · rw [hunks_self empty]
    rfl

/-- Something of the old text stands between any two edits. -/
theorem pairwise_edits (offset : Int) (old new : Text) :
    (edits offset old new).Pairwise fun earlier later => earlier.stop < later.start := by
  refine pairwise_editsOf (apart_hunks _ _) ?_ _
  intro hunk member line found
  have inOld : line ∈ (hunks old.splitLines new.splitLines).flatMap Hunk.old :=
    List.mem_flatMap.mpr ⟨hunk, member, found⟩
  rw [flatMap_old_hunks] at inOld
  exact Text.ne_nil_of_mem_splitLines inOld

/-- No edit is refused: neither an offset nor the order of two is ever at fault. -/
theorem checkEdits_edits (offset : Nat) (old new : Text) :
    checkEdits (edits offset old new) = .valid (edits offset old new) := by
  apply checkEdits_eq_valid
  intro edit member
  have start := (cuts_of_mem_edits member).offset_le_start
  exact ⟨by omega, (cuts_of_mem_edits member).start_le_stop⟩

/-- The edits put the new text in the place of the old, whatever stands around it. -/
theorem apply_edits (old new : Text) (lead tail : Octets) :
    apply (edits lead.length old new) (lead ++ (Text.encode old ++ tail)) =
      lead ++ (Text.encode new ++ tail) := by
  have place : (lead.length : Int) = ([] : Octets).length + lead.length := by simp
  have parts : lead ++ (Text.encode old ++ tail) =
      [] ++ (lead ++ (Text.encode (oldText (hunks old.splitLines new.splitLines)) ++ tail)) := by
    rw [oldText_hunks, List.nil_append]
  have applied := applyFrom_editsOf place parts
  rwa [newText_hunks] at applied

/-- In any buffer that holds the old text the edits put the new text in its place and leave every
other byte. They replace stretches of whole characters inside the old text, in order and apart. -/
theorem edits_rewrite_in_place (old new : Text) (lead tail : Octets) :
    checkEdits (edits lead.length old new) = .valid (edits lead.length old new) ∧
    apply (edits lead.length old new) (lead ++ (Text.encode old ++ tail)) =
      lead ++ (Text.encode new ++ tail) ∧
    (∀ edit ∈ edits lead.length old new, ∃ start stop : Nat,
      edit.start = lead.length + start ∧ edit.stop = lead.length + stop ∧ start ≤ stop ∧
        stop ≤ old.byteCount ∧ old.isBoundary start ∧ old.isBoundary stop) ∧
    (edits lead.length old new).Pairwise fun earlier later => earlier.stop < later.start := by
  refine ⟨checkEdits_edits _ old new, apply_edits old new lead tail, ?_, pairwise_edits _ old new⟩
  intro edit member
  exact (cuts_of_mem_edits member).boundaries

/-- `é` and `è` share their first byte, but are replaced as a whole. -/
example : edits 2 "né\nok\n".toList "nè\nok\n".toList =
    [{ start := 3, stop := 5, text := "è".toList }] := by decide +kernel

end NextEdit.Diff
