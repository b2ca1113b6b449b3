import NextEdit.Proofs.Budget.Newest
import NextEdit.Proofs.Text.Erasure
import NextEdit.Proofs.Text.Measure

/-! The two renderings of the legacy history. The plain one leaves out the changes that have nothing to
say. The budgeted one pays nothing for them and keeps them, so each stands in the text as one more
separator: the two agree where every change kept has something to say, and where at most one is kept. -/
namespace NextEdit

namespace Text

variable {separator : Text}

theorem byteCount_join (texts : List Text) :
    (join separator texts).byteCount =
      byteCount texts.flatten + (texts.length - 1) * separator.byteCount := by
  induction texts with
  | nil => simp [join]
  | cons text rest ih =>
    cases rest with
    | nil => simp [join]
    | cons next others =>
      rw [join_cons text (List.cons_ne_nil _ _), List.flatten_cons]
      simp only [byteCount_append, ih, List.length_cons, Nat.add_sub_cancel, Nat.succ_mul]
      omega

/-- An empty text shows in a joined one by its separator, unless it stands alone. -/
theorem join_nonempty_eq_iff (apart : separator ≠ []) (texts : List Text) :
    join separator texts = join separator (texts.filter fun text => !text.isEmpty) ↔
      texts.length ≤ 1 ∨ ∀ text ∈ texts, text ≠ [] := by
  constructor
  · intro same
    have size := congrArg byteCount same
    rw [byteCount_join, byteCount_join, List.flatten_filter_not_isEmpty] at size
    have gaps := Nat.eq_of_mul_eq_mul_right (byteCount_pos apart) (Nat.add_left_cancel size)
    by_cases alone : texts.length ≤ 1
    · exact .inl alone
    · right
      have count : (texts.filter fun text => !text.isEmpty).length = texts.length := by omega
      intro text member
      simpa using List.length_filter_eq_length_iff.mp count text member
  · intro plain
    rcases plain with alone | spoken
    · match texts, alone with
      | [], _ => rfl
      | [text], _ => cases text <;> rfl
    · rw [List.filter_eq_self.mpr]
      intro text member
      simpa using spoken text member

end Text

namespace Legacy

/-- The change says nothing: its path stays the same up to spelling, and its diff is empty. -/
def Silent (change : Change) : Prop :=
  PathIdentity.ofText change.oldPath = PathIdentity.ofText change.path ∧ change.diff = []

instance (change : Change) : Decidable (Silent change) :=
  inferInstanceAs (Decidable (_ ∧ _))

theorem describe_eq_nil_iff (change : Change) : describe change = [] ↔ Silent change := by
  rw [describe, List.append_eq_nil_iff]
  apply and_congr
  · split
    · rename_i same
      exact iff_of_true rfl same
    · rename_i renamed
      simp [renamed]
  · split
    · rename_i empty
      exact iff_of_true rfl (List.isEmpty_iff.mp empty)
    · rename_i edited
      simp [List.isEmpty_iff.not.mp edited]

/-- Joined with nothing left out, changes read as the plain history as long as none of several is
silent. -/
theorem join_describe_eq_history_iff (changes : List Change) :
    Text.join separator (changes.map describe) = history changes ↔
      changes.length ≤ 1 ∨ ∀ change ∈ changes, ¬ Silent change := by
  have apart : separator ≠ [] := List.cons_ne_nil _ _
  rw [history, Text.join_nonempty_eq_iff apart, List.length_map, List.forall_mem_map]
  simp only [ne_eq, describe_eq_nil_iff]

theorem keptChanges_eq_rtake (budget : Int) (changes : List Change) :
    keptChanges budget changes = changes.rtake (historyWithin budget changes).2 :=
  takeLastWithin_eq_rtake budget changes

/-- The budgeted history joins the descriptions of the last changes, as many as it counts. That is the
plain history of these changes as long as none of several is silent. A budget that pays for every
description keeps every change. -/
theorem budgeted_history_of_last (budget : Int) (changes : List Change) :
    let shown := historyWithin budget changes
    let last := changes.rtake shown.2
    shown.2 ≤ changes.length ∧
    shown.1 = Text.join separator (last.map describe) ∧
    (shown.1 = history last ↔ shown.2 ≤ 1 ∨ ∀ change ∈ last, ¬ Silent change) ∧
    ((totalCost (fun change => (describe change).tokens) changes : Int) ≤ budget → last = changes) := by
  intro shown last
  have kept : keptChanges budget changes = last := keptChanges_eq_rtake budget changes
  have count : last.length = shown.2 := congrArg List.length kept.symm
  have joined : shown.1 = Text.join separator (last.map describe) := by
    rw [← kept]
    rfl
  refine ⟨?_, joined, ?_, ?_⟩
  · exact (takeLastWithin_isSuffix _ budget changes).length_le
  · rw [joined, ← count]
    exact join_describe_eq_history_iff last
  · intro enough
    rw [← kept]
    exact takeLastWithin_eq_self enough

/-- An edit that is not a prediction. -/
def editOf (path diff : Text) : Change where
  path := path
  oldPath := path
  diff := diff
  predicted := false
  inOpenSource := false

/-- Two edits in a budget that just pays for both. -/
theorem budgeted_history_of_last_two :
    let changes := [editOf "a.rs".toList "-1\n".toList, editOf "b.rs".toList "+2\n".toList]
    (historyWithin 22 changes).1 = history changes := by
  intro changes
  have fits : (totalCost (fun change => (describe change).tokens) changes : Int) ≤ 22 ∧
      ∀ change ∈ changes, ¬ Silent change := by
    decide +kernel
  obtain ⟨enough, spoken⟩ := fits
  obtain ⟨_, _, plain, whole⟩ := budgeted_history_of_last 22 changes
  rw [whole enough] at plain
  exact plain.mpr (.inr spoken)

/-- A change without a diff between two edits: kept, it stands between two separators, where the plain
history has one. -/
theorem silent_change_doubles_separator :
    let changes := [editOf "a.rs".toList "-1\n".toList, editOf "b.rs".toList [],
      editOf "c.rs".toList "-3\n".toList]
    (historyWithin 80 changes).2 = 3 ∧
      (historyWithin 80 changes).1 =
        ("User edited a.rs:\n```diff\n-1\n\n```\n\n\n\n" ++
          "User edited c.rs:\n```diff\n-3\n\n```").toList ∧
      history changes =
        ("User edited a.rs:\n```diff\n-1\n\n```\n\n" ++
          "User edited c.rs:\n```diff\n-3\n\n```").toList := by
  decide +kernel

end Legacy
end NextEdit
