import NextEdit.Proofs.Json.Elements
import NextEdit.Proofs.Json.Quote

/-! Written JSON is read back. The reader is the recursion on how deep a value may nest, so the proof
is an induction on the depth; each layout may add blanks where the reader passes over them. -/
namespace NextEdit.Json

/-- A reader of this depth can take the value: nothing is nested deeper, and no integer has more
digits than a reader takes. -/
def Legible : (depth : Nat) → Json → Prop
  | _, int value => Numeral.IsShort value
  | 0, list items => items = []
  | 0, object members => members = []
  | depth + 1, list items => ∀ item ∈ items, Legible depth item
  | depth + 1, object members => ∀ member ∈ members, Legible depth member.2
  | _, _ => True

/-- A layout that differs from the compact one in escapes and blanks only. -/
structure Layout.Readable (layout : Layout) : Prop where
  escape : Unescapes layout.escape
  lineStart : ∀ level, IsBlank (layout.lineStart level)
  colon : ∃ gap, layout.colon = ':' :: gap ∧ IsBlank gap

theorem readable_compact : Layout.compact.Readable where
  escape := unescapes_escapeControl
  lineStart _ := List.forall_mem_nil _
  colon := ⟨[], rfl, List.forall_mem_nil _⟩

theorem readable_ascii : Layout.ascii.Readable where
  escape := unescapes_escapeAscii
  lineStart _ := List.forall_mem_nil _
  colon := ⟨[], rfl, List.forall_mem_nil _⟩

section Plain

variable {item : Option (Reader Json)} {rest : Text}

theorem readWith_append (blank : IsBlank blanks) (text : Text) :
    readWith item (blanks ++ text) = readWith item text := by
  rw [readWith, readWith, skipSpace_append blank]

theorem readValue_append (blank : IsBlank blanks) (depth : Nat) (text : Text) :
    readValue depth (blanks ++ text) = readValue depth text := by
  cases depth <;> exact readWith_append blank text

/-- A text that opens no text, list or object. -/
theorem readWith_plain (starts : text.head? = some char) (solid : isSpace char = false)
    (other : char ≠ '"' ∧ char ≠ '[' ∧ char ≠ '\x7b') : readWith item text = readPlain text := by
  obtain ⟨tail, rfl⟩ := List.head?_eq_some_iff.mp starts
  obtain ⟨quote, bracket, brace⟩ := other
  rw [readWith, skipSpace_cons solid]
  split
  · rename_i same
    exact absurd (List.cons.inj same).1 quote
  · rename_i same
    exact absurd (List.cons.inj same).1 bracket
  · rename_i same
    exact absurd (List.cons.inj same).1 brace
  · rfl

theorem readPlain_number (starts : text.head? = some char)
    (other : char ≠ 'n' ∧ char ≠ 't' ∧ char ≠ 'f' ∧ char ≠ 'N') :
    readPlain text = readNumber text := by
  obtain ⟨tail, rfl⟩ := List.head?_eq_some_iff.mp starts
  obtain ⟨n, t, f, N⟩ := other
  simp [readPlain, Text.after?, List.isPrefixOf?, n.symm, t.symm, f.symm, N.symm]

/-- A sign or a digit starts a number and nothing else. -/
theorem readWith_number (starts : text.head? = some char)
    (number : char = '-' ∨ char.isDigit = true) : readWith item text = readNumber text := by
  have other (letter : Char) (notSign : letter ≠ '-') (notDigit : letter.isDigit = false) :
      char ≠ letter := by
    rintro rfl
    rcases number with sign | digit
    · exact notSign sign
    · rw [notDigit] at digit
      cases digit
  have solid : isSpace char = false := by
    cases space : isSpace char with
    | false => rfl
    | true =>
      have notDigit := (endsNumber_of_isSpace space [] char rfl).1
      have notSign : char ≠ '-' := by
        rintro rfl
        cases space
      exact absurd rfl (other char notSign notDigit)
  rw [readWith_plain starts solid ⟨other _ (by decide) (by decide), other _ (by decide) (by decide),
      other _ (by decide) (by decide)⟩,
    readPlain_number starts ⟨other _ (by decide) (by decide), other _ (by decide) (by decide),
      other _ (by decide) (by decide), other _ (by decide) (by decide)⟩]

theorem readWith_ofInt {value : Int} (short : Numeral.IsShort value) (ends : EndsNumber rest) :
    readWith item (Numeral.ofInt value ++ rest) = some (int value, rest) := by
  rw [← readNumber_ofInt short ends]
  cases value with
  | ofNat size =>
    obtain ⟨digit, tail, parts⟩ := List.exists_cons_of_ne_nil (Numeral.ofNat_ne_nil size)
    have isDigit : digit.isDigit = true :=
      Numeral.isDigit_of_mem_ofNat (parts ▸ List.mem_cons_self)
    apply readWith_number _ (.inr isDigit)
    rw [Numeral.ofInt, parts]
    rfl
  | negSucc size => exact readWith_number rfl (.inl rfl)

theorem readWith_real (ends : EndsNumber rest) (value : Real) :
    readWith item (value.write ++ rest) = some (real value, rest) := by
  cases value with
  | finite value =>
    obtain ⟨negative, digits, exponent⟩ := value
    have fraction := readUnsigned_fraction ends negative digits exponent
    simp only [Real.write, List.append_assoc]
    cases negative with
    | false => exact (readWith_number rfl (.inr rfl)).trans fraction
    | true => exact (readWith_number rfl (.inl rfl)).trans fraction
  | infinite negative =>
    cases negative <;>
      simp [Real.write, readWith, skipSpace, isSpace, readPlain, readNumber, readUnsigned,
        Text.after?, List.isPrefixOf?]
  | notANumber =>
    simp [Real.write, readWith, skipSpace, isSpace, readPlain, Text.after?, List.isPrefixOf?]

end Plain

section Values

variable {layout : Layout} {rest : Text}

theorem readWith_quote (readable : layout.Readable) (item : Option (Reader Json)) (value rest : Text) :
    readWith item (quote layout.escape value ++ rest) = some (string value, rest) := by
  rw [quote, List.cons_append, readWith, skipSpace_cons (by decide)]
  simp only [List.append_assoc, List.cons_append, List.nil_append,
    readString_flatMap readable.escape, Option.map_some]

/-- What has nothing nested in it is read back at any depth. -/
theorem readWith_flat (readable : layout.Readable) (item : Option (Reader Json))
    (flat : Legible 0 json) (ends : EndsNumber rest) (level : Nat) :
    readWith item (writeAt layout level json ++ rest) = some (json, rest) := by
  cases json with
  | null =>
    simp [writeAt, readWith, skipSpace, isSpace, readPlain, Text.after?, List.isPrefixOf?]
  | bool value =>
    cases value <;>
      simp [writeAt, readWith, skipSpace, isSpace, readPlain, Text.after?, List.isPrefixOf?]
  | int value => exact readWith_ofInt flat ends
  | real value => exact readWith_real ends value
  | string value => exact readWith_quote readable item value rest
  | list items =>
    have empty : items = [] := flat
    simp [empty, writeAt, readWith, readEnclosed, skipSpace, isSpace]
  | object members =>
    have empty : members = [] := flat
    simp [empty, writeAt, readWith, readEnclosed, skipSpace, isSpace]

/-- An item on its line. -/
def itemText (layout : Layout) (level : Nat) (item : Json) : Text :=
  layout.lineStart level ++ writeAt layout level item

/-- A member on its line. -/
def memberText (layout : Layout) (level : Nat) (member : Text × Json) : Text :=
  layout.lineStart level ++ (quote layout.escape member.1 ++
    (layout.colon ++ writeAt layout level member.2))

theorem writeItems_eq (layout : Layout) (level : Nat) (items : List Json) :
    writeItems layout level items = items.flatMap fun item => ',' :: itemText layout level item := by
  induction items with
  | nil => rfl
  | cons item items ih => simp [writeItems, itemText, ih]

theorem writeMembers_eq (layout : Layout) (level : Nat) (members : List (Text × Json)) :
    writeMembers layout level members =
      members.flatMap fun member => ',' :: memberText layout level member := by
  induction members with
  | nil => rfl
  | cons member members ih => simp [writeMembers, memberText, ih]

theorem writeAt_list (layout : Layout) (level : Nat) (first : Json) (more : List Json) :
    writeAt layout level (list (first :: more)) =
      '[' :: writeUpTo ']' (layout.lineStart level) (itemText layout (level + 1)) first more := by
  simp only [writeAt, writeItems_eq, writeUpTo, itemText, List.append_assoc]

theorem writeAt_object (layout : Layout) (level : Nat) (first : Text × Json)
    (more : List (Text × Json)) :
    writeAt layout level (object (first :: more)) =
      '\x7b' :: writeUpTo '\x7d' (layout.lineStart level) (memberText layout (level + 1)) first more := by
  simp only [writeAt, writeMembers_eq, writeUpTo, memberText, List.append_assoc]

/-- At its end or at what closes it, no element stands. -/
def Closes (close : Char) (element : Reader α) : Prop :=
  ∀ text, (∀ char ∈ (skipSpace text).head?, char = close) → element text = none

theorem readEnclosed_of_readUpTo {element : Reader α} (closes : Closes close element)
    (reads : readUpTo close element (mostElements body) body = some (values, rest)) :
    readEnclosed close (some element) body = some (values, rest) := by
  obtain ⟨first, here⟩ := exists_first_of_readUpTo reads
  have opens : ¬ ∀ char ∈ (skipSpace body).head?, char = close := by
    intro closed
    rw [closes body closed] at here
    cases here
  rw [readEnclosed]
  cases skipped : skipSpace body with
  | nil =>
    rw [skipped] at opens
    exact absurd nofun opens
  | cons char behind =>
    have different : char ≠ close := by
      rintro rfl
      rw [skipped] at opens
      exact opens fun other same => (Option.some.inj same).symm
    simp only [if_neg different]
    exact reads

theorem closes_readValue (depth : Nat) : Closes ']' (readValue depth) := by
  have plain (rest : Text) : readPlain [] = none ∧ readPlain (']' :: rest) = none := by
    simp [readPlain, readNumber, readUnsigned, readWhole, readDigits, Text.after?, List.isPrefixOf?]
  have closed (item : Option (Reader Json)) : Closes ']' (readWith item) := by
    intro text closed
    rw [readWith]
    cases skipped : skipSpace text with
    | nil => exact (plain []).1
    | cons char rest =>
      rw [skipped] at closed
      cases closed char rfl
      exact (plain rest).2
  cases depth <;> exact closed _

theorem closes_readMember (item : Reader Json) : Closes '\x7d' (readMember item) := by
  intro text closed
  rw [readMember]
  cases skipped : skipSpace text with
  | nil => rfl
  | cons char rest =>
    rw [skipped] at closed
    cases closed char rfl
    rfl

theorem readValue_list
    (reads : readUpTo ']' (readValue depth) (mostElements body) body = some (items, rest)) :
    readValue (depth + 1) ('[' :: body) = some (list items, rest) := by
  rw [readValue, readWith, skipSpace_cons (by decide)]
  simp only [readEnclosed_of_readUpTo (closes_readValue depth) reads, Option.map_some]

theorem readValue_object
    (reads : readUpTo '\x7d' (readMember (readValue depth)) (mostElements body) body =
      some (members, rest)) :
    readValue (depth + 1) ('\x7b' :: body) = some (object members, rest) := by
  rw [readValue, readWith, skipSpace_cons (by decide)]
  simp only [Option.map_some, readEnclosed_of_readUpTo (closes_readMember _) reads]

theorem readMember_memberText (readable : layout.Readable)
    (reads : readValue depth (writeAt layout level member.2 ++ rest) = some (member.2, rest)) :
    readMember (readValue depth) (memberText layout level member ++ rest) = some (member, rest) := by
  obtain ⟨gap, colon, blank⟩ := readable.colon
  simp only [memberText, quote, List.append_assoc, List.cons_append, List.nil_append, readMember,
    skipSpace_append (readable.lineStart level), skipSpace_cons (show isSpace '"' = false by decide),
    readString_flatMap readable.escape, Option.bind_eq_bind, Option.bind_some, colon,
    skipSpace_cons (show isSpace ':' = false by decide), readValue_append blank, reads,
    Option.map_some]

end Values

/-- Written JSON is read back by a reader of sufficient depth, whatever follows it. -/
theorem readValue_writeAt {layout : Layout} (readable : layout.Readable) (legible : Legible depth json)
    (ends : EndsNumber rest) (level : Nat) :
    readValue depth (writeAt layout level json ++ rest) = some (json, rest) := by
  induction depth generalizing json level rest with
  | zero => exact readWith_flat readable none legible ends level
  | succ depth ih =>
    cases json with
    | list items =>
      cases items with
      | nil =>
        apply readWith_flat readable _ _ ends level
        rfl
      | cons first more =>
        have item : ∀ json ∈ first :: more, ∀ rest, EndsNumber rest →
            readValue depth (itemText layout (level + 1) json ++ rest) = some (json, rest) := by
          intro json member rest ends
          rw [itemText, List.append_assoc, readValue_append (readable.lineStart _)]
          exact ih (legible json member) ends (level + 1)
        rw [writeAt_list, List.cons_append]
        exact readValue_list (readUpTo_writeUpTo item (readable.lineStart level) (by decide)
          (lt_mostElements_writeUpTo _ _ _ _ _ rest) rest)
    | object members =>
      cases members with
      | nil =>
        apply readWith_flat readable _ _ ends level
        rfl
      | cons first more =>
        have member : ∀ member ∈ first :: more, ∀ rest, EndsNumber rest →
            readMember (readValue depth) (memberText layout (level + 1) member ++ rest) =
              some (member, rest) := by
          intro member isMember rest ends
          exact readMember_memberText readable (ih (legible member isMember) ends (level + 1))
        rw [writeAt_object, List.cons_append]
        exact readValue_object (readUpTo_writeUpTo member (readable.lineStart level) (by decide)
          (lt_mostElements_writeUpTo _ _ _ _ _ rest) rest)
    | _ =>
      apply readWith_flat readable _ _ ends level
      exact legible

/-- A whole text that holds one written value. -/
theorem read?_write {layout : Layout} (readable : layout.Readable) (legible : Legible depth json)
    (blank : IsBlank rest) : read? depth (json.write layout ++ rest) = some json := by
  have ends : EndsNumber rest := by
    have behind := endsNumber_append blank endsNumber_nil
    rwa [List.append_nil] at behind
  have nothing : skipSpace rest = [] := by
    have behind := skipSpace_append blank []
    rwa [List.append_nil] at behind
  rw [read?, write, readValue_writeAt readable legible ends 0]
  simp only [Option.bind_eq_bind, Option.bind_some, nothing, List.isEmpty_nil, if_true]
  rfl

end NextEdit.Json
