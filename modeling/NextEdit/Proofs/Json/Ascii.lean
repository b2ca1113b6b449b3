import NextEdit.Proofs.Json.Number

/-! JSON in ASCII is printable: control characters, and all that a terminal could take for more than
text, are escaped. -/
namespace NextEdit.Json

/-- A printable ASCII character. -/
def IsPrintable (char : Char) : Prop :=
  0x20 ≤ char.toNat ∧ char.toNat < 0x7F

instance (char : Char) : Decidable (IsPrintable char) :=
  inferInstanceAs (Decidable (_ ∧ _))

def AllPrintable (text : Text) : Prop :=
  ∀ char ∈ text, IsPrintable char

instance (text : Text) : Decidable (AllPrintable text) :=
  List.decidableBAll IsPrintable text

section Parts

variable {left right : Text}

@[simp] theorem allPrintable_nil : AllPrintable [] :=
  List.forall_mem_nil _

@[simp] theorem allPrintable_append :
    AllPrintable (left ++ right) ↔ AllPrintable left ∧ AllPrintable right :=
  List.forall_mem_append

@[simp] theorem allPrintable_cons {char : Char} :
    AllPrintable (char :: right) ↔ IsPrintable char ∧ AllPrintable right :=
  List.forall_mem_cons

theorem isPrintable_hexDigit (value : Nat) : IsPrintable (hexDigit (value % 16)) := by
  have table : ∀ value < 16, IsPrintable (hexDigit value) := by
    decide
  exact table _ (Nat.mod_lt _ (by decide))

theorem allPrintable_unitEscape (unit : Nat) : AllPrintable (unitEscape unit) := by
  have lead : IsPrintable '\\' ∧ IsPrintable 'u' := by
    decide
  simp [unitEscape, lead, isPrintable_hexDigit]

theorem allPrintable_escapeAscii (char : Char) : AllPrintable (escapeAscii char) := by
  unfold escapeAscii
  split
  · rename_i short
    unfold shortEscape? at short
    split at short <;> cases short <;> decide
  · dsimp only
    split
    · rename_i printable
      exact List.forall_mem_singleton.mpr printable
    · split
      · exact allPrintable_unitEscape _
      · exact allPrintable_append.mpr ⟨allPrintable_unitEscape _, allPrintable_unitEscape _⟩

theorem allPrintable_quote (text : Text) : AllPrintable (quote escapeAscii text) := by
  have mark : IsPrintable '"' := by
    decide
  have inner : AllPrintable (text.flatMap escapeAscii) := by
    intro char member
    obtain ⟨source, _, member⟩ := List.mem_flatMap.mp member
    exact allPrintable_escapeAscii source char member
  simp [quote, mark, inner]

theorem allPrintable_ofNat (value : Nat) : AllPrintable (Numeral.ofNat value) := by
  intro char member
  have digit := Numeral.isDigit_of_mem_ofNat member
  simp only [Char.isDigit, Bool.and_eq_true, decide_eq_true_eq] at digit
  have lower : 48 ≤ char.toNat := digit.1
  have upper : char.toNat ≤ 57 := digit.2
  exact ⟨by omega, by omega⟩

theorem allPrintable_ofInt (value : Int) : AllPrintable (Numeral.ofInt value) := by
  have sign : IsPrintable '-' := by
    decide
  cases value with
  | ofNat size => exact allPrintable_ofNat size
  | negSucc size => exact allPrintable_cons.mpr ⟨sign, allPrintable_ofNat _⟩

theorem allPrintable_real (value : Real) : AllPrintable value.write := by
  cases value with
  | finite value =>
    have sign : AllPrintable (if value.negative then ['-'] else []) := by
      cases value.negative <;> decide
    have point : IsPrintable '0' ∧ IsPrintable '.' ∧ IsPrintable 'e' := by
      decide
    simp [Real.write, sign, point, allPrintable_ofNat, allPrintable_ofInt]
  | infinite negative => cases negative <;> decide
  | notANumber => decide

end Parts

/-- The characters that JSON puts around and between values. -/
theorem isPrintable_punctuation :
    IsPrintable '[' ∧ IsPrintable ']' ∧ IsPrintable '\x7b' ∧ IsPrintable '\x7d' ∧
      IsPrintable ',' ∧ IsPrintable ':' := by
  decide

mutual

theorem allPrintable_writeAt (level : Nat) : (json : Json) → AllPrintable (writeAt .ascii level json)
  | null => (by decide : AllPrintable "null".toList)
  | bool true => (by decide : AllPrintable "true".toList)
  | bool false => (by decide : AllPrintable "false".toList)
  | int value => allPrintable_ofInt value
  | real value => allPrintable_real value
  | string value => allPrintable_quote value
  | list [] => (by decide : AllPrintable ['[', ']'])
  | list (first :: rest) => by
    have head := allPrintable_writeAt (level + 1) first
    have tail := allPrintable_writeItems (level + 1) rest
    simpa [writeAt, Layout.ascii, isPrintable_punctuation] using ⟨head, tail⟩
  | object [] => (by decide : AllPrintable ['\x7b', '\x7d'])
  | object ((name, first) :: rest) => by
    have label := allPrintable_quote name
    have head := allPrintable_writeAt (level + 1) first
    have tail := allPrintable_writeMembers (level + 1) rest
    simpa [writeAt, Layout.ascii, isPrintable_punctuation] using ⟨label, head, tail⟩

theorem allPrintable_writeItems (level : Nat) :
    (items : List Json) → AllPrintable (writeItems .ascii level items)
  | [] => allPrintable_nil
  | item :: rest => by
    have head := allPrintable_writeAt level item
    have tail := allPrintable_writeItems level rest
    simpa [writeItems, Layout.ascii, isPrintable_punctuation] using ⟨head, tail⟩

theorem allPrintable_writeMembers (level : Nat) :
    (members : List (Text × Json)) → AllPrintable (writeMembers .ascii level members)
  | [] => allPrintable_nil
  | (name, value) :: rest => by
    have label := allPrintable_quote name
    have head := allPrintable_writeAt level value
    have tail := allPrintable_writeMembers level rest
    simpa [writeMembers, Layout.ascii, isPrintable_punctuation] using ⟨label, head, tail⟩

end

theorem allPrintable_write (json : Json) : AllPrintable (json.write .ascii) :=
  allPrintable_writeAt 0 json

end NextEdit.Json
