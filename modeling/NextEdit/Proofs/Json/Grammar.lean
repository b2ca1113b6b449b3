import NextEdit.Proofs.Json.RoundTrip

/-! The JSON that a text spells. The grammar sets no limit: values nest to any depth and numbers have any
number of digits, but neither `NaN` nor an infinity is a number. It is unambiguous; what any layout writes
spells the value written, and what the reader gives within its limits is spelled by what it read. -/
namespace NextEdit.Json

/-- Reads a number behind its sign: digits, none of them a zero in front of others, and a fraction and
an exponent if there are any. -/
def readDecimal (negative : Bool) : Reader Json := fun text => do
  let (whole, rest) ← readDigits text
  if whole.head? ≠ some '0' ∨ whole.length = 1 then
    let (fraction, rest) ← readFraction rest
    let (exponent, rest) ← readExponent rest
    let digits := Nat.ofDigitChars 10 (whole ++ fraction.getD []) 0
    if fraction.isNone ∧ exponent.isNone then
      return (int (if negative then -(digits : Int) else digits), rest)
    else
      let exponent := exponent.getD 0 - (fraction.getD []).length
      return (real (.finite { negative, digits, exponent }), rest)
  else none

/-- Reads a value that nests nothing. -/
def readScalar : Reader Json
  | '"' :: rest => (readString rest).map fun (value, rest) => (string value, rest)
  | 'n' :: 'u' :: 'l' :: 'l' :: rest => some (null, rest)
  | 't' :: 'r' :: 'u' :: 'e' :: rest => some (bool true, rest)
  | 'f' :: 'a' :: 'l' :: 's' :: 'e' :: rest => some (bool false, rest)
  | '-' :: rest => readDecimal true rest
  | rest => readDecimal false rest

/-- What encloses values. -/
inductive Enclosure
  | list
  | object

namespace Enclosure

def opening : Enclosure → Char
  | list => '['
  | object => '\x7b'

def closing : Enclosure → Char
  | list => ']'
  | object => '\x7d'

/-- The value that encloses nothing. -/
def empty : Enclosure → Json
  | list => .list []
  | object => .object []

theorem eq_of_opening_eq {left right : Enclosure} (same : left.opening = right.opening) :
    left = right := by
  cases left <;> cases right <;> trivial

theorem opening_ne_closing (left right : Enclosure) : left.opening ≠ right.closing := by
  cases left <;> cases right <;> decide

theorem closing_ne_comma (enclosure : Enclosure) : enclosure.closing ≠ ',' := by
  cases enclosure <;> decide

theorem endsNumber_closing (enclosure : Enclosure) (rest : Text) :
    EndsNumber (enclosure.closing :: rest) := by
  cases enclosure <;> exact endsNumber_cons (by decide) rest

theorem skipSpace_closing (enclosure : Enclosure) (rest : Text) :
    skipSpace (enclosure.closing :: rest) = enclosure.closing :: rest := by
  cases enclosure <;> rfl

end Enclosure

/-- What may come next in a text. -/
inductive Part
  | value
  /-- All that is enclosed. -/
  | inside (enclosure : Enclosure)
  /-- An item or a member, and what is enclosed behind it. -/
  | elements (enclosure : Enclosure)
  | afterElement (enclosure : Enclosure)

/-- A text starts with a part, and the rest stands behind it. What is enclosed from some place on counts
as a list or an object itself. -/
inductive Starts : (part : Part) → (text : Text) → (json : Json) → (rest : Text) → Prop
  | scalar (reads : readScalar (skipSpace text) = some (json, rest)) : Starts .value text json rest
  | nested (enclosure : Enclosure) (opens : skipSpace text = enclosure.opening :: behind)
    (starts : Starts (.inside enclosure) behind json rest) : Starts .value text json rest
  | empty (closes : skipSpace text = enclosure.closing :: rest) :
    Starts (.inside enclosure) text enclosure.empty rest
  | filled (starts : Starts (.elements enclosure) text json rest) :
    Starts (.inside enclosure) text json rest
  | item (first : Starts .value text item behind)
    (more : Starts (.afterElement .list) behind (list items) rest) :
    Starts (.elements .list) text (list (item :: items)) rest
  | member (quote : skipSpace text = '"' :: label) (named : readString label = some (name, afterName))
    (colon : skipSpace afterName = ':' :: afterColon) (first : Starts .value afterColon value behind)
    (more : Starts (.afterElement .object) behind (object members) rest) :
    Starts (.elements .object) text (object ((name, value) :: members)) rest
  | last (closes : skipSpace text = enclosure.closing :: rest) :
    Starts (.afterElement enclosure) text enclosure.empty rest
  | next (comma : skipSpace text = ',' :: behind)
    (starts : Starts (.elements enclosure) behind json rest) :
    Starts (.afterElement enclosure) text json rest

/-- The whole text is one value, up to blanks around it. -/
def Spells (text : Text) (json : Json) : Prop :=
  ∃ rest, Starts .value text json rest ∧ skipSpace rest = []

/-- A value that the standard has: every number in it is finite. -/
inductive IsStandard : Json → Prop
  | null : IsStandard null
  | bool (value : Bool) : IsStandard (bool value)
  | int (value : Int) : IsStandard (int value)
  | real (value : Decimal) : IsStandard (real (.finite value))
  | string (value : Text) : IsStandard (string value)
  | list (standard : ∀ item ∈ items, IsStandard item) : IsStandard (list items)
  | object (standard : ∀ member ∈ members, IsStandard member.2) : IsStandard (object members)

section Unambiguity

variable {text rest : Text}

/-- No scalar starts with a character that opens or closes a list or an object. -/
theorem readScalar_enclosure (enclosure : Enclosure) (rest : Text) :
    readScalar (enclosure.opening :: rest) = none ∧ readScalar (enclosure.closing :: rest) = none := by
  cases enclosure <;>
    simp [readScalar, readDecimal, readDigits, Enclosure.opening, Enclosure.closing]

theorem ne_comma_of_closes {enclosure : Enclosure} (closes : text = enclosure.closing :: rest) :
    text ≠ ',' :: behind :=
  fun comma => enclosure.closing_ne_comma (List.cons.inj (closes.symm.trans comma)).1

/-- No element starts with the character that would close its list or object. -/
theorem Starts.not_closed (starts : Starts (.elements enclosure) text json rest) :
    skipSpace text ≠ enclosure.closing :: behind := by
  intro closes
  cases starts with
  | item first =>
    cases first with
    | scalar reads =>
      rw [closes, (readScalar_enclosure _ _).2] at reads
      cases reads
    | nested _ opens =>
      exact Enclosure.opening_ne_closing _ _ (List.cons.inj (opens.symm.trans closes)).1
  | member quote => cases quote.symm.trans closes

/-- A text starts with one value only, and with one part of any other kind. -/
theorem Starts.unique (first : Starts part text json rest) (second : Starts part text other behind) :
    json = other ∧ rest = behind := by
  induction first generalizing other behind with
  | scalar reads =>
    cases second with
    | scalar others =>
      cases reads.symm.trans others
      exact ⟨rfl, rfl⟩
    | nested _ opens =>
      rw [opens, (readScalar_enclosure _ _).1] at reads
      cases reads
  | nested _ opens _ ih =>
    cases second with
    | scalar reads =>
      rw [opens, (readScalar_enclosure _ _).1] at reads
      cases reads
    | nested _ others starts =>
      obtain ⟨same, rfl⟩ := List.cons.inj (opens.symm.trans others)
      cases Enclosure.eq_of_opening_eq same
      exact ih starts
  | empty closes =>
    cases second with
    | empty others => exact ⟨rfl, (List.cons.inj (closes.symm.trans others)).2⟩
    | filled starts => exact absurd closes starts.not_closed
  | filled starts ih =>
    cases second with
    | empty closes => exact absurd closes starts.not_closed
    | filled others => exact ih others
  | item _ _ here later =>
    cases second with
    | item first more =>
      obtain ⟨rfl, rfl⟩ := here first
      obtain ⟨same, rfl⟩ := later more
      cases same
      exact ⟨rfl, rfl⟩
  | member quote named colon _ _ here later =>
    cases second with
    | member quotes names colons first more =>
      cases quote.symm.trans quotes
      cases named.symm.trans names
      cases colon.symm.trans colons
      obtain ⟨rfl, rfl⟩ := here first
      obtain ⟨same, rfl⟩ := later more
      cases same
      exact ⟨rfl, rfl⟩
  | last closes =>
    cases second with
    | last others => exact ⟨rfl, (List.cons.inj (closes.symm.trans others)).2⟩
    | next comma => exact absurd comma (ne_comma_of_closes closes)
  | next comma _ ih =>
    cases second with
    | last closes => exact absurd comma (ne_comma_of_closes closes)
    | next others starts =>
      cases comma.symm.trans others
      exact ih starts

/-- A text spells one value only. -/
theorem Spells.unique (spells : Spells text json) (others : Spells text other) : json = other := by
  obtain ⟨_, starts, _⟩ := spells
  obtain ⟨_, startsOther, _⟩ := others
  exact (starts.unique startsOther).1

end Unambiguity

section Numbers

variable {text rest : Text}

theorem readDecimal_ofNat (ends : EndsNumber rest) (negative : Bool) (value : Nat) :
    readDecimal negative (Numeral.ofNat value ++ rest) =
      some (int (if negative then -(value : Int) else value), rest) := by
  have size : Nat.ofDigitChars 10 (Numeral.ofNat value) 0 = value := Nat.ofDigitChars_ten_toDigits
  simp only [readDecimal, readDigits_ofNat ends.notDigit, if_pos (Numeral.no_leading_zero value),
    readFraction_of_ends ends, readExponent_of_ends ends, Option.bind_eq_bind, Option.bind_some,
    Option.getD_none, List.append_nil, size, Option.isNone_none, and_self, if_true]
  rfl

/-- The reader that takes numbers up to a limit reads nothing else. -/
theorem readDecimal_of_readUnsigned (reads : readUnsigned negative text = some (json, rest))
    (standard : IsStandard json) : readDecimal negative text = some (json, rest) := by
  simp only [readUnsigned] at reads
  split at reads
  · cases reads
    cases standard
  · obtain ⟨⟨whole, afterWhole⟩, readsWhole, reads⟩ := Option.bind_eq_some_iff.mp reads
    obtain ⟨digits, _, leading⟩ := readDigits_of_readWhole readsWhole
    simp only [readDecimal, digits, Option.bind_eq_bind, Option.bind_some, if_pos leading]
    exact reads

/-- A fraction gives its digits back, counted from the point. -/
theorem readDecimal_fraction (ends : EndsNumber rest) (negative : Bool) (digits : Nat)
    (exponent : Int) :
    readDecimal negative ('0' :: '.' :: (Numeral.ofNat digits ++ 'e' ::
        (Numeral.ofInt (exponent + (Numeral.ofNat digits).length) ++ rest))) =
      some (real (.finite { negative, digits, exponent }), rest) :=
  readDecimal_of_readUnsigned (readUnsigned_fraction ends negative digits exponent) (.real _)

/-- A digit starts a number and nothing else. -/
theorem readScalar_digit (digit : char.isDigit = true) (rest : Text) :
    readScalar (char :: rest) = readDecimal false (char :: rest) := by
  rw [readScalar]
  all_goals
    intro _ word
    rw [(List.cons.inj word).1] at digit
    cases digit

theorem readScalar_ofInt (ends : EndsNumber rest) (value : Int) :
    readScalar (Numeral.ofInt value ++ rest) = some (int value, rest) := by
  cases value with
  | ofNat size =>
    have number := readDecimal_ofNat ends false size
    obtain ⟨digit, tail, parts⟩ := List.exists_cons_of_ne_nil (Numeral.ofNat_ne_nil size)
    have isDigit : digit.isDigit = true :=
      Numeral.isDigit_of_mem_ofNat (parts ▸ List.mem_cons_self)
    rw [parts] at number
    rw [Numeral.ofInt, parts]
    exact (readScalar_digit isDigit _).trans number
  | negSucc size => exact readDecimal_ofNat ends true (size + 1)

theorem readScalar_finite (ends : EndsNumber rest) (value : Decimal) :
    readScalar ((Real.finite value).write ++ rest) = some (real (.finite value), rest) := by
  obtain ⟨negative, digits, exponent⟩ := value
  have fraction := readDecimal_fraction ends negative digits exponent
  simp only [Real.write, List.append_assoc]
  cases negative with
  | false => exact (readScalar_digit (rfl : '0'.isDigit = true) _).trans fraction
  | true => exact fraction

end Numbers

section Writing

variable {layout : Layout} {blanks rest : Text}

theorem Starts.of_readScalar (reads : readScalar text = some (json, rest)) :
    Starts .value text json rest := by
  have solid : skipSpace text = text := by
    cases text with
    | nil => rfl
    | cons char text =>
      apply skipSpace_cons
      cases space : isSpace char with
      | false => rfl
      | true =>
        simp only [isSpace, Bool.or_eq_true, beq_iff_eq] at space
        rcases space with ((rfl | rfl) | rfl) | rfl <;> cases reads
  rw [← solid] at reads
  exact .scalar reads

/-- What blanks stand in front of a value makes no difference. -/
theorem Starts.append (blank : IsBlank blanks) (starts : Starts .value text json rest) :
    Starts .value (blanks ++ text) json rest := by
  have skips := skipSpace_append blank text
  cases starts with
  | scalar reads => exact .scalar (skips ▸ reads)
  | nested _ opens inside => exact .nested _ (skips.trans opens) inside

/-- Elements of a list or an object, each up to what stands behind it. -/
theorem starts_writeUpTo {write : α → Text} {gather : List α → Json} {first : α} {more : List α}
    (empty : gather [] = enclosure.empty)
    (cons : ∀ element ∈ first :: more, ∀ behind, EndsNumber behind → ∀ others,
      Starts (.afterElement enclosure) behind (gather others) rest →
        Starts (.elements enclosure) (write element ++ behind) (gather (element :: others)) rest)
    (blank : IsBlank blanks) :
    Starts (.elements enclosure) (writeUpTo enclosure.closing blanks write first more ++ rest)
      (gather (first :: more)) rest := by
  simp only [writeUpTo, List.append_assoc, List.cons_append, List.nil_append]
  induction more generalizing first with
  | nil =>
    have ends : EndsNumber (blanks ++ enclosure.closing :: rest) :=
      endsNumber_append blank (enclosure.endsNumber_closing rest)
    have closes : skipSpace (blanks ++ enclosure.closing :: rest) = enclosure.closing :: rest := by
      rw [skipSpace_append blank, enclosure.skipSpace_closing]
    have last := Starts.last closes
    rw [← empty] at last
    exact cons first (by simp) _ ends [] last
  | cons second more ih =>
    have later := ih fun element member => cons element (List.mem_cons_of_mem _ member)
    rw [List.flatMap_cons, List.cons_append, List.cons_append, List.append_assoc]
    exact cons first (by simp) _ (endsNumber_cons (by decide) _) (second :: more)
      (.next (skipSpace_cons (by decide) _) later)

end Writing

/-- What a layout writes starts with the value written. -/
theorem starts_writeAt {layout : Layout} (readable : layout.Readable) (standard : IsStandard json)
    (ends : EndsNumber rest) (level : Nat) :
    Starts .value (writeAt layout level json ++ rest) json rest := by
  have quoted (text rest : Text) : readString (text.flatMap layout.escape ++ ('"' :: rest)) =
      some (text, rest) := readString_flatMap readable.escape text rest
  induction standard generalizing rest level with
  | null => exact .of_readScalar rfl
  | bool value => cases value <;> exact .of_readScalar rfl
  | int value => exact .of_readScalar (readScalar_ofInt ends value)
  | real value => exact .of_readScalar (readScalar_finite ends value)
  | string value =>
    apply Starts.of_readScalar
    simp [writeAt, quote, readScalar, quoted]
  | @list items _ ih =>
    cases items with
    | nil => exact .nested .list rfl (.empty rfl)
    | cons first more =>
      rw [writeAt_list, List.cons_append]
      apply Starts.nested .list (skipSpace_cons (by decide) _)
      apply Starts.filled
      apply starts_writeUpTo rfl _ (readable.lineStart level)
      intro item member behind ends others later
      rw [itemText, List.append_assoc]
      exact .item ((ih item member ends (level + 1)).append (readable.lineStart _)) later
  | @object members _ ih =>
    cases members with
    | nil => exact .nested .object rfl (.empty rfl)
    | cons first more =>
      rw [writeAt_object, List.cons_append]
      apply Starts.nested .object (skipSpace_cons (by decide) _)
      apply Starts.filled
      apply starts_writeUpTo rfl _ (readable.lineStart level)
      intro member isMember behind ends others later
      obtain ⟨gap, colon, blank⟩ := readable.colon
      have value := (ih member isMember ends (level + 1)).append blank
      simp only [memberText, quote, colon, List.append_assoc, List.cons_append, List.nil_append]
      refine .member ?_ (quoted member.1 _) (skipSpace_cons (by decide) _) value later
      rw [skipSpace_append (readable.lineStart _), skipSpace_cons (by decide)]

/-- What a layout writes spells the value written. -/
theorem spells_write {layout : Layout} (readable : layout.Readable) (standard : IsStandard json) :
    Spells (json.write layout) json := by
  have starts := starts_writeAt readable standard endsNumber_nil 0
  rw [List.append_nil] at starts
  exact ⟨[], starts, rfl⟩

section Reading

variable {text rest : Text}

theorem readScalar_of_readDecimal (reads : readDecimal false text = some found) :
    readScalar text = some found := by
  cases text with
  | nil => cases reads
  | cons char behind =>
    cases digit : char.isDigit with
    | true => exact (readScalar_digit digit behind).trans reads
    | false => simp [readDecimal, readDigits, digit] at reads

/-- A standard value that is read as it stands is a scalar. -/
theorem readScalar_of_readPlain (reads : readPlain text = some (json, rest))
    (standard : IsStandard json) : readScalar text = some (json, rest) := by
  simp only [readPlain] at reads
  split at reads
  · rename_i word
    obtain rfl := Text.after?_eq_some_iff.mp word
    cases reads
    rfl
  · split at reads
    · rename_i word
      obtain rfl := Text.after?_eq_some_iff.mp word
      cases reads
      rfl
    · split at reads
      · rename_i word
        obtain rfl := Text.after?_eq_some_iff.mp word
        cases reads
        rfl
      · split at reads
        · cases reads
          cases standard
        · unfold readNumber at reads
          split at reads
          · exact readDecimal_of_readUnsigned reads standard
          · exact readScalar_of_readDecimal (readDecimal_of_readUnsigned reads standard)

/-- Elements that a reader takes, where each of them starts as it should. -/
theorem starts_of_readUpTo {element : Reader α} {gather : List α → Json}
    (empty : gather [] = enclosure.empty)
    (cons : ∀ text behind, ∀ value ∈ values, ∀ others, element text = some (value, behind) →
      Starts (.afterElement enclosure) behind (gather others) rest →
        Starts (.elements enclosure) text (gather (value :: others)) rest)
    (reads : readUpTo enclosure.closing element count text = some (values, rest)) :
    Starts (.elements enclosure) text (gather values) rest := by
  induction count generalizing text values with
  | zero => cases reads
  | succ count ih =>
    rw [readUpTo] at reads
    obtain ⟨⟨first, behind⟩, here, reads⟩ := Option.bind_eq_some_iff.mp reads
    simp only at reads
    split at reads
    · cases reads
    · rename_i char after skipped
      split at reads
      · rename_i comma
        obtain ⟨⟨others, last⟩, later, same⟩ := Option.map_eq_some_iff.mp reads
        cases same
        rw [comma] at skipped
        have next := ih (fun text behind value member =>
          cons text behind value (List.mem_cons_of_mem _ member)) later
        exact cons text behind first List.mem_cons_self others here (.next skipped next)
      · split at reads
        · rename_i closes
          cases reads
          rw [closes] at skipped
          have last := Starts.last skipped
          rw [← empty] at last
          exact cons text behind first List.mem_cons_self [] here last
        · cases reads

theorem starts_of_readEnclosed {element : Option (Reader α)} {gather : List α → Json}
    (empty : gather [] = enclosure.empty)
    (cons : ∀ reader, element = some reader → ∀ text behind, ∀ value ∈ values, ∀ others,
      reader text = some (value, behind) →
        Starts (.afterElement enclosure) behind (gather others) rest →
          Starts (.elements enclosure) text (gather (value :: others)) rest)
    (reads : readEnclosed enclosure.closing element text = some (values, rest)) :
    Starts (.inside enclosure) text (gather values) rest := by
  unfold readEnclosed at reads
  split at reads
  · cases reads
  · rename_i char behind skipped
    split at reads
    · rename_i closes
      cases reads
      rw [closes] at skipped
      rw [empty]
      exact .empty skipped
    · obtain ⟨reader, isReader, reads⟩ := Option.bind_eq_some_iff.mp reads
      exact .filled (starts_of_readUpTo empty (cons reader isReader) reads)

/-- A member starts with its name, and its value starts as the reader of values has it. -/
theorem starts_of_readMember {item : Reader Json} (reads : readMember item text = some (member, behind))
    (value : ∀ front back, item front = some (member.2, back) → Starts .value front member.2 back)
    (more : Starts (.afterElement .object) behind (object others) rest) :
    Starts (.elements .object) text (object (member :: others)) rest := by
  simp only [readMember] at reads
  split at reads
  · rename_i quote
    obtain ⟨⟨name, afterName⟩, named, reads⟩ := Option.bind_eq_some_iff.mp reads
    simp only at reads
    split at reads
    · rename_i colon
      obtain ⟨⟨found, back⟩, here, same⟩ := Option.map_eq_some_iff.mp reads
      cases same
      exact .member quote named colon (value _ _ here) more
    · cases reads
  · cases reads

theorem starts_of_readWith {item : Option (Reader Json)}
    (items : ∀ reader, item = some reader → ∀ front json back, IsStandard json →
      reader front = some (json, back) → Starts .value front json back)
    (reads : readWith item text = some (json, rest)) (standard : IsStandard json) :
    Starts .value text json rest := by
  unfold readWith at reads
  split at reads
  · rename_i quote
    apply Starts.scalar
    rw [quote]
    exact reads
  · rename_i opens
    obtain ⟨⟨values, behind⟩, readsItems, same⟩ := Option.map_eq_some_iff.mp reads
    cases same
    cases standard with
    | list standard =>
      refine .nested .list opens (starts_of_readEnclosed rfl ?_ readsItems)
      intro reader isReader front back value member others here more
      exact .item (items reader isReader _ _ _ (standard value member) here) more
  · rename_i opens
    obtain ⟨⟨values, behind⟩, readsMembers, same⟩ := Option.map_eq_some_iff.mp reads
    cases same
    cases standard with
    | object standard =>
      refine .nested .object opens (starts_of_readEnclosed rfl ?_ readsMembers)
      intro reader isReader front back value member others here more
      obtain ⟨inner, isInner, rfl⟩ := Option.map_eq_some_iff.mp isReader
      refine starts_of_readMember here (fun front back => ?_) more
      exact items inner isInner front value.2 back (standard value member)
  · exact .scalar (readScalar_of_readPlain reads standard)

theorem starts_of_readValue (reads : readValue depth text = some (json, rest))
    (standard : IsStandard json) : Starts .value text json rest := by
  induction depth generalizing text json rest with
  | zero =>
    apply starts_of_readWith _ reads standard
    intro reader none
    cases none
  | succ depth ih =>
    apply starts_of_readWith _ reads standard
    intro reader same front value back isStandard here
    cases same
    exact ih here isStandard

/-- Of standard values the reader gives only what a text spells. -/
theorem spells_of_read? (reads : read? depth text = some json) (standard : IsStandard json) :
    Spells text json := by
  obtain ⟨⟨value, rest⟩, here, checked⟩ := Option.bind_eq_some_iff.mp reads
  simp only at checked
  split at checked
  · rename_i nothing
    cases checked
    exact ⟨rest, starts_of_readValue here standard, List.isEmpty_iff.mp nothing⟩
  · cases checked

end Reading

end NextEdit.Json
