import NextEdit.Proofs.Json.RoundTrip
import NextEdit.Text.Line

/-! Newlines in JSON. Between tokens every form of a newline is blank and inside tokens none may stand,
so a reader cannot tell a text from the same text with its newlines unified. Readers that read one
after another inherit this from their parts. -/
namespace NextEdit

namespace Text

/-- The text holds no newline in any form. -/
def Unbroken (text : Text) : Prop :=
  ∀ char ∈ text, char ≠ '\r' ∧ char ≠ '\n'

theorem Unbroken.no_return (unbroken : Unbroken text) : ∀ char ∈ text, char ≠ '\r' :=
  fun char member => (unbroken char member).1

theorem Unbroken.no_newline (unbroken : Unbroken text) : ∀ char ∈ text, char ≠ '\n' :=
  fun char member => (unbroken char member).2

theorem Unbroken.append (front : Unbroken left) (back : Unbroken right) : Unbroken (left ++ right) :=
  List.forall_mem_append.mpr ⟨front, back⟩

section Unify

variable {char : Char} {front back rest text : Text}

theorem unifyNewlines_cons (plain : char ≠ '\r') (rest : Text) :
    unifyNewlines (char :: rest) = char :: unifyNewlines rest := by
  rw [unifyNewlines, if_neg plain]
  intro tail same
  exact absurd same plain

theorem unifyNewlines_append (plain : ∀ char ∈ front, char ≠ '\r') (rest : Text) :
    unifyNewlines (front ++ rest) = front ++ unifyNewlines rest := by
  induction front with
  | nil => rfl
  | cons char front ih =>
    obtain ⟨here, later⟩ := List.forall_mem_cons.mp plain
    rw [List.cons_append, unifyNewlines_cons here, ih later, List.cons_append]

theorem unifyNewlines_return (rest : Text) :
    ∃ tail, unifyNewlines ('\r' :: rest) = '\n' :: tail := by
  unfold unifyNewlines
  split
  · rename_i empty
    cases empty
  · exact ⟨_, rfl⟩
  · rename_i same
    cases same
    exact ⟨_, rfl⟩

theorem unifyNewlines_of_not_mem (free : '\r' ∉ text) : unifyNewlines text = text := by
  have plain : ∀ char ∈ text, char ≠ '\r' := by
    rintro char member rfl
    exact free member
  have same := unifyNewlines_append plain []
  rwa [List.append_nil, show unifyNewlines [] = [] from rfl, List.append_nil] at same

theorem return_not_mem_unifyNewlines (text : Text) : '\r' ∉ unifyNewlines text := by
  fun_induction unifyNewlines text with
  | case1 => exact List.not_mem_nil
  | case2 rest ih => exact List.not_mem_cons_of_ne_of_not_mem (by decide) ih
  | case3 char rest _ ih =>
    refine List.not_mem_cons_of_ne_of_not_mem ?_ ih
    split
    · decide
    · rename_i plain
      exact fun same => plain same.symm

/-- What a unified text starts with, the text starts with, newlines apart. -/
theorem exists_of_unifyNewlines_append (plain : ∀ char ∈ front, char ≠ '\n')
    (same : unifyNewlines text = front ++ back) :
    ∃ rest, text = front ++ rest ∧ unifyNewlines rest = back := by
  induction front generalizing text with
  | nil => exact ⟨text, rfl, same⟩
  | cons char front ih =>
    obtain ⟨here, later⟩ := List.forall_mem_cons.mp plain
    cases text with
    | nil => cases same
    | cons first text =>
      by_cases isReturn : first = '\r'
      · subst isReturn
        obtain ⟨tail, unified⟩ := unifyNewlines_return text
        rw [unified] at same
        exact absurd (List.cons.inj same).1.symm here
      · rw [unifyNewlines_cons isReturn] at same
        obtain ⟨rfl, others⟩ := List.cons.inj same
        obtain ⟨rest, rfl, unified⟩ := ih later others
        exact ⟨rest, rfl, unified⟩

theorem head?_unifyNewlines_ne (plain : char ≠ '\n') (other : text.head? ≠ some char) :
    (unifyNewlines text).head? ≠ some char := by
  intro starts
  obtain ⟨tail, same⟩ := List.head?_eq_some_iff.mp starts
  obtain ⟨rest, rfl, _⟩ := exists_of_unifyNewlines_append
    (List.forall_mem_singleton.mpr plain) (show _ = [char] ++ tail from same)
  exact other rfl

theorem takeWhile_unifyNewlines {keep : Char → Bool} (returns : keep '\r' = false)
    (newlines : keep '\n' = false) (text : Text) :
    (unifyNewlines text).takeWhile keep = text.takeWhile keep ∧
      (unifyNewlines text).dropWhile keep = unifyNewlines (text.dropWhile keep) := by
  induction text with
  | nil => exact ⟨rfl, rfl⟩
  | cons char rest ih =>
    by_cases isReturn : char = '\r'
    · subst isReturn
      obtain ⟨tail, unified⟩ := unifyNewlines_return rest
      rw [List.takeWhile_cons, List.dropWhile_cons, returns, unified, List.takeWhile_cons,
        List.dropWhile_cons, newlines]
      exact ⟨rfl, unified.symm⟩
    · rw [unifyNewlines_cons isReturn, List.takeWhile_cons, List.dropWhile_cons,
        List.takeWhile_cons, List.dropWhile_cons, ih.1, ih.2]
      cases keep char with
      | true => exact ⟨rfl, rfl⟩
      | false => exact ⟨rfl, (unifyNewlines_cons isReturn rest).symm⟩

theorem after?_unifyNewlines {marker : Text} (plain : Unbroken marker) (text : Text) :
    after? marker (unifyNewlines text) = (after? marker text).map unifyNewlines := by
  cases found : after? marker text with
  | some rest =>
    rw [after?_eq_some_iff.mp found, unifyNewlines_append plain.no_return]
    exact after?_eq_some_iff.mpr rfl
  | none =>
    apply after?_eq_none
    rintro ⟨tail, same⟩
    obtain ⟨rest, parts, _⟩ := exists_of_unifyNewlines_append plain.no_newline same.symm
    rw [after?_eq_some_iff.mpr parts] at found
    cases found

end Unify

end Text

namespace Json

open Text

/-- The reader gives the same on a text with unified newlines, and what it leaves is unified. -/
def Tolerates (reader : Reader α) : Prop :=
  ∀ text, reader (unifyNewlines text) =
    (reader text).map fun found => (found.1, unifyNewlines found.2)

section Combinators

variable {α β : Type} {reader : Reader α}

theorem tolerates_some (value : α) : Tolerates fun text => some (value, text) :=
  fun _ => rfl

theorem tolerates_none : Tolerates fun _ => (none : Option (α × Text)) :=
  fun _ => rfl

theorem Tolerates.bind {next : α × Text → Option (β × Text)} (first : Tolerates reader)
    (second : ∀ value, Tolerates fun rest => next (value, rest)) :
    Tolerates fun text => (reader text).bind next := by
  intro text
  simp only [first text]
  cases reader text with
  | none => rfl
  | some found => exact second found.1 found.2

theorem Tolerates.map {change : α × Text → β × Text} {f : α → β} (reads : Tolerates reader)
    (keeps : ∀ value rest, change (value, rest) = (f value, rest)) :
    Tolerates fun text => (reader text).map change := by
  intro text
  simp only [reads text]
  cases reader text with
  | none => rfl
  | some found =>
    obtain ⟨value, rest⟩ := found
    simp only [Option.map_some, keeps]

theorem tolerates_ite {condition : Prop} [Decidable condition] {other : Reader α}
    (first : Tolerates reader) (second : Tolerates other) :
    Tolerates fun text => if condition then reader text else other text := by
  by_cases holds : condition
  · simpa only [if_pos holds] using first
  · simpa only [if_neg holds] using second

/-- A word in front of another reader. -/
theorem Tolerates.word {marker : Text} (plain : Unbroken marker) (value : α)
    (other : Tolerates reader) :
    Tolerates fun text =>
      match after? marker text with
      | some rest => some (value, rest)
      | none => reader text := by
  intro text
  simp only [after?_unifyNewlines plain]
  cases after? marker text with
  | some rest => rfl
  | none => exact other text

end Combinators

section Spaces

variable {char : Char} {text rest : Text}

theorem skipSpace_unifyNewlines (text : Text) :
    skipSpace (unifyNewlines text) = unifyNewlines (skipSpace text) := by
  fun_induction unifyNewlines text with
  | case1 => rfl
  | case2 rest ih => exact ih
  | case3 char rest notPair ih =>
    have head : unifyNewlines (char :: rest) =
        (if char = '\r' then '\n' else char) :: unifyNewlines rest := by
      rw [unifyNewlines]
      exact notPair
    rw [← head]
    by_cases space : isSpace char = true
    · have newSpace : isSpace (if char = '\r' then '\n' else char) = true := by
        split
        · rfl
        · exact space
      rw [head, skipSpace, skipSpace, List.dropWhile_cons_of_pos newSpace,
        List.dropWhile_cons_of_pos space]
      exact ih
    · have plain : char ≠ '\r' := by
        rintro rfl
        exact space rfl
      rw [head, if_neg plain, skipSpace, skipSpace, List.dropWhile_cons_of_neg space,
        List.dropWhile_cons_of_neg space, unifyNewlines_cons plain]

theorem isSpace_of_skipSpace (skipped : skipSpace text = char :: rest) : isSpace char = false := by
  have solid := List.head?_dropWhile_not isSpace text
  rw [show text.dropWhile isSpace = char :: rest from skipped] at solid
  exact solid

theorem skipSpace_skipSpace (text : Text) : skipSpace (skipSpace text) = skipSpace text := by
  cases skipped : skipSpace text with
  | nil => rfl
  | cons char rest => exact skipSpace_cons (isSpace_of_skipSpace skipped) rest

/-- Behind blanks no newline stands. -/
theorem ne_return_of_skipSpace (skipped : skipSpace text = char :: rest) : char ≠ '\r' := by
  rintro rfl
  cases isSpace_of_skipSpace skipped

theorem mostElements_unifyNewlines (text : Text) :
    mostElements (unifyNewlines text) = mostElements text := by
  rw [mostElements, mostElements]
  fun_induction unifyNewlines text with
  | case1 => rfl
  | case2 rest ih => simpa [List.count_cons] using ih
  | case3 char rest notPair ih =>
    by_cases isReturn : char = '\r' <;> simp_all [List.count_cons]

end Spaces

section Numbers

theorem tolerates_readDigits : Tolerates readDigits := by
  intro text
  obtain ⟨taken, dropped⟩ := takeWhile_unifyNewlines (by decide : Char.isDigit '\r' = false)
    (by decide) text
  simp only [readDigits, taken, dropped]
  split <;> rfl

theorem tolerates_readWhole : Tolerates readWhole :=
  tolerates_readDigits.bind fun digits => tolerates_ite (tolerates_some digits) tolerates_none

/-- A reader that looks at one character first. -/
theorem Tolerates.head {reader hit miss : Reader α} (plain : char ≠ '\r' ∧ char ≠ '\n')
    (onHit : ∀ rest, reader (char :: rest) = hit rest)
    (onMiss : ∀ text : Text, text.head? ≠ some char → reader text = miss text)
    (hits : Tolerates hit) (misses : Tolerates miss) : Tolerates reader := by
  intro text
  by_cases starts : text.head? = some char
  · obtain ⟨rest, rfl⟩ := List.head?_eq_some_iff.mp starts
    rw [unifyNewlines_cons plain.1, onHit, onHit]
    exact hits rest
  · rw [onMiss _ starts, onMiss _ (head?_unifyNewlines_ne plain.2 starts)]
    exact misses text

theorem tolerates_readFraction : Tolerates readFraction := by
  refine Tolerates.head (show '.' ≠ '\r' ∧ '.' ≠ '\n' by decide) (fun _ => rfl) ?_
    (tolerates_readDigits.map fun _ _ => rfl) (tolerates_some none)
  intro text other
  rw [readFraction]
  rintro rest rfl
  exact other rfl

theorem dropSign_of_head (minus : text.head? ≠ some '-') (plus : text.head? ≠ some '+') :
    dropSign text = (false, text) := by
  rw [dropSign]
  · rintro rest rfl
    exact minus rfl
  · rintro rest rfl
    exact plus rfl

theorem dropSign_unifyNewlines (text : Text) :
    dropSign (unifyNewlines text) = ((dropSign text).1, unifyNewlines (dropSign text).2) := by
  by_cases minus : text.head? = some '-'
  · obtain ⟨rest, rfl⟩ := List.head?_eq_some_iff.mp minus
    rw [unifyNewlines_cons (by decide)]
    rfl
  · by_cases plus : text.head? = some '+'
    · obtain ⟨rest, rfl⟩ := List.head?_eq_some_iff.mp plus
      rw [unifyNewlines_cons (by decide)]
      rfl
    · rw [dropSign_of_head minus plus, dropSign_of_head
        (head?_unifyNewlines_ne (by decide) minus) (head?_unifyNewlines_ne (by decide) plus)]

theorem readExponent_of_head (lower : text.head? ≠ some 'e') (upper : text.head? ≠ some 'E') :
    readExponent text = some (none, text) := by
  cases text with
  | nil => rfl
  | cons char rest =>
    refine if_neg (not_or.mpr ⟨?_, ?_⟩)
    · rintro rfl
      exact lower rfl
    · rintro rfl
      exact upper rfl

theorem tolerates_readExponent : Tolerates readExponent := by
  intro text
  by_cases lower : text.head? = some 'e'
  · obtain ⟨rest, rfl⟩ := List.head?_eq_some_iff.mp lower
    rw [unifyNewlines_cons (by decide), readExponent, if_pos (.inl rfl), dropSign_unifyNewlines]
    exact (tolerates_readDigits.map fun _ _ => rfl) (dropSign rest).2
  · by_cases upper : text.head? = some 'E'
    · obtain ⟨rest, rfl⟩ := List.head?_eq_some_iff.mp upper
      rw [unifyNewlines_cons (by decide), readExponent, if_pos (.inr rfl), dropSign_unifyNewlines]
      exact (tolerates_readDigits.map fun _ _ => rfl) (dropSign rest).2
    · rw [readExponent_of_head lower upper, readExponent_of_head
        (head?_unifyNewlines_ne (by decide) lower) (head?_unifyNewlines_ne (by decide) upper)]
      rfl

theorem tolerates_readUnsigned (negative : Bool) : Tolerates (readUnsigned negative) := by
  refine Tolerates.word (by simp [Unbroken]) _ ?_
  refine tolerates_readWhole.bind fun whole => ?_
  refine tolerates_readFraction.bind fun fraction => ?_
  refine tolerates_readExponent.bind fun exponent => ?_
  exact tolerates_ite (tolerates_some _) (tolerates_some _)

theorem tolerates_readNumber : Tolerates readNumber := by
  refine Tolerates.head (show '-' ≠ '\r' ∧ '-' ≠ '\n' by decide) (fun _ => rfl) ?_
    (tolerates_readUnsigned true) (tolerates_readUnsigned false)
  intro text other
  rw [readNumber]
  rintro rest rfl
  exact other rfl

theorem tolerates_readPlain : Tolerates readPlain := by
  refine Tolerates.word (by simp [Unbroken]) _ ?_
  refine Tolerates.word (by simp [Unbroken]) _ ?_
  refine Tolerates.word (by simp [Unbroken]) _ ?_
  exact Tolerates.word (by simp [Unbroken]) _ tolerates_readNumber

end Numbers

section Strings

/-- A reader that succeeds here takes a stretch without newlines, whatever stands behind it. -/
def DelimitedAt (reader : Reader α) (text : Text) : Prop :=
  ∀ value rest, reader text = some (value, rest) →
    ∃ front, text = front ++ rest ∧ Unbroken front ∧
      ∀ other, reader (front ++ other) = some (value, other)

theorem tolerates_of_delimited {reader : Reader α} (delimited : ∀ text, DelimitedAt reader text) :
    Tolerates reader := by
  intro text
  cases here : reader text with
  | some found =>
    obtain ⟨value, rest⟩ := found
    obtain ⟨front, rfl, plain, reads⟩ := delimited text value rest here
    rw [unifyNewlines_append plain.no_return, reads]
    rfl
  | none =>
    cases unified : reader (unifyNewlines text) with
    | none => rfl
    | some found =>
      obtain ⟨value, back⟩ := found
      obtain ⟨front, parts, plain, reads⟩ := delimited _ value back unified
      obtain ⟨rest, rfl, _⟩ := exists_of_unifyNewlines_append plain.no_newline parts
      rw [reads] at here
      cases here

/-- One character of a string in front of others. -/
theorem delimited_prepend {lead : Text} (plain : Unbroken lead)
    (takes : ∀ rest, readString (lead ++ rest) = prepend char (readString rest))
    (later : DelimitedAt readString rest) (value behind : Text)
    (reads : prepend char (readString rest) = some (value, behind)) :
    ∃ front, lead ++ rest = front ++ behind ∧ Unbroken front ∧
      ∀ other, readString (front ++ other) = some (value, other) := by
  obtain ⟨⟨others, _⟩, here, same⟩ := Option.map_eq_some_iff.mp reads
  cases same
  obtain ⟨front, rfl, frontPlain, frontReads⟩ := later others behind here
  refine ⟨lead ++ front, (List.append_assoc _ _ _).symm, plain.append frontPlain, fun other => ?_⟩
  rw [List.append_assoc, takes, frontReads]
  rfl

theorem plain_of_hexValue? (found : hexValue? char = some value) : char ≠ '\r' ∧ char ≠ '\n' := by
  constructor <;> rintro rfl <;> cases found

theorem unbroken_of_unit? (found : unit? a b c d = some unit) :
    Unbroken [a, b, c, d] := by
  obtain ⟨first, isFirst, found⟩ := Option.bind_eq_some_iff.mp found
  obtain ⟨second, isSecond, found⟩ := Option.bind_eq_some_iff.mp found
  obtain ⟨third, isThird, found⟩ := Option.bind_eq_some_iff.mp found
  obtain ⟨fourth, isFourth, _⟩ := Option.bind_eq_some_iff.mp found
  simp only [Unbroken, List.forall_mem_cons, List.not_mem_nil, false_imp_iff, implies_true, and_true]
  exact ⟨plain_of_hexValue? isFirst, plain_of_hexValue? isSecond, plain_of_hexValue? isThird,
    plain_of_hexValue? isFourth⟩

theorem readString_unit (found : unit? a b c d = some unit)
    (scalar : unit < 0xD800 ∨ 0xE000 ≤ unit) (rest : Text) :
    readString ('\\' :: 'u' :: a :: b :: c :: d :: rest) =
      prepend (Char.ofNat unit) (readString rest) := by
  simp only [readString, found, if_pos scalar]

theorem readString_pair (found : unit? a b c d = some high)
    (surrogate : ¬ (high < 0xD800 ∨ 0xE000 ≤ high)) (isHigh : ¬ 0xDC00 ≤ high)
    (pairs : (unit? e f g h).bind (pair? high) = some char) (rest : Text) :
    readString ('\\' :: 'u' :: a :: b :: c :: d :: '\\' :: 'u' :: e :: f :: g :: h :: rest) =
      prepend char (readString rest) := by
  rw [readString, found]
  simp only [if_neg surrogate, if_neg isHigh, pairs]

theorem readString_letter (found : escaped? letter = some char) (rest : Text) :
    readString ('\\' :: letter :: rest) = prepend char (readString rest) := by
  have notUnit : letter ≠ 'u' := by
    rintro rfl
    cases found
  rw [readString]
  · rw [found]
  · intro _ _ _ _ _ isUnit
    exact absurd isUnit notUnit

theorem delimitedAt_readString (text : Text) : DelimitedAt readString text := by
  have slash : '\\' ≠ '\r' ∧ '\\' ≠ '\n' := by decide
  have escape : Unbroken ['\\', 'u'] := by simp [Unbroken]
  unfold DelimitedAt
  fun_induction readString text with
  | case2 rest =>
    intro value other reads
    cases reads
    exact ⟨['"'], rfl, by simp [Unbroken], fun _ => rfl⟩
  | case4 a b c d rest unit found scalar ih =>
    exact delimited_prepend (escape.append (unbroken_of_unit? found)) (readString_unit found scalar) ih
  | case7 a b c d high found surrogate isHigh e f g h rest char pairs ih =>
    obtain ⟨low, second, _⟩ := Option.bind_eq_some_iff.mp pairs
    have plain := (escape.append (unbroken_of_unit? found)).append
      (escape.append (unbroken_of_unit? second))
    exact delimited_prepend plain (readString_pair found surrogate isHigh pairs) ih
  | case10 letter rest _ char found ih =>
    have plain : letter ≠ '\r' ∧ letter ≠ '\n' := by
      constructor <;> rintro rfl <;> cases found
    exact delimited_prepend (List.forall_mem_cons.mpr ⟨slash, List.forall_mem_singleton.mpr plain⟩)
      (readString_letter found) ih
  | case12 char rest quote _ _ good ih =>
    obtain ⟨printable, notSlash⟩ := not_or.mp good
    have plain : char ≠ '\r' ∧ char ≠ '\n' := by
      constructor <;> rintro rfl <;> exact printable (by decide)
    exact delimited_prepend (List.forall_mem_singleton.mpr plain)
      (readString_raw (Nat.not_lt.mp printable) quote notSlash) ih
  | _ => nofun

theorem tolerates_readString : Tolerates readString :=
  tolerates_of_delimited delimitedAt_readString

end Strings

section Values

variable {α : Type} {item : Reader Json}

theorem tolerates_readUpTo {element : Reader α} (elements : Tolerates element) (close : Char)
    (count : Nat) : Tolerates (readUpTo close element count) := by
  induction count with
  | zero => exact tolerates_none
  | succ count ih =>
    refine elements.bind fun first => ?_
    intro rest
    simp only [skipSpace_unifyNewlines]
    cases skipped : skipSpace rest with
    | nil => rfl
    | cons char behind =>
      rw [unifyNewlines_cons (ne_return_of_skipSpace skipped)]
      dsimp only
      split
      · exact (ih.map fun _ _ => rfl) behind
      · split <;> rfl

theorem tolerates_readEnclosed {element : Option (Reader α)}
    (elements : ∀ reader ∈ element, Tolerates reader) (close : Char) :
    Tolerates (readEnclosed close element) := by
  intro text
  rw [readEnclosed, readEnclosed, skipSpace_unifyNewlines, mostElements_unifyNewlines]
  cases skipped : skipSpace text with
  | nil => rfl
  | cons char rest =>
    rw [unifyNewlines_cons (ne_return_of_skipSpace skipped)]
    by_cases closes : char = close
    · simp only [if_pos closes]
      rfl
    · simp only [if_neg closes]
      cases element with
      | none => rfl
      | some reader => exact tolerates_readUpTo (elements reader rfl) close _ text

theorem tolerates_readMember (items : Tolerates item) : Tolerates (readMember item) := by
  intro text
  rw [readMember, readMember, skipSpace_unifyNewlines]
  cases skipped : skipSpace text with
  | nil => rfl
  | cons char rest =>
    rw [unifyNewlines_cons (ne_return_of_skipSpace skipped)]
    by_cases quote : char = '"'
    · subst quote
      refine tolerates_readString.bind (fun name => ?_) rest
      intro behind
      simp only [skipSpace_unifyNewlines]
      cases skipped : skipSpace behind with
      | nil => rfl
      | cons char value =>
        rw [unifyNewlines_cons (ne_return_of_skipSpace skipped)]
        by_cases colon : char = ':'
        · subst colon
          exact (items.map fun _ _ => rfl) value
        · split
          · rename_i same
            exact absurd (List.cons.inj same).1 colon
          · split
            · rename_i same
              exact absurd (List.cons.inj same).1 colon
            · rfl
    · split
      · rename_i same
        exact absurd (List.cons.inj same).1 quote
      · split
        · rename_i same
          exact absurd (List.cons.inj same).1 quote
        · rfl

theorem readWith_skipSpace (item : Option (Reader Json)) (text : Text) :
    readWith item (skipSpace text) = readWith item text := by
  rw [readWith, readWith, skipSpace_skipSpace]

theorem tolerates_readWith {item : Option (Reader Json)}
    (items : ∀ reader ∈ item, Tolerates reader) : Tolerates (readWith item) := by
  intro text
  rw [← readWith_skipSpace item text, ← readWith_skipSpace item (unifyNewlines text),
    skipSpace_unifyNewlines]
  cases skipped : skipSpace text with
  | nil => exact tolerates_readPlain []
  | cons char rest =>
    have unified : unifyNewlines (char :: rest) = char :: unifyNewlines rest :=
      unifyNewlines_cons (ne_return_of_skipSpace skipped) rest
    rw [unified]
    by_cases quote : char = '"'
    · subst quote
      exact (tolerates_readString.map fun _ _ => rfl) rest
    · by_cases bracket : char = '['
      · subst bracket
        exact ((tolerates_readEnclosed items ']').map fun _ _ => rfl) rest
      · by_cases brace : char = '\x7b'
        · subst brace
          have members : ∀ reader ∈ item.map readMember, Tolerates reader := by
            intro reader isReader
            obtain ⟨inner, isInner, rfl⟩ := Option.map_eq_some_iff.mp isReader
            exact tolerates_readMember (items inner isInner)
          exact ((tolerates_readEnclosed members '\x7d').map fun _ _ => rfl) rest
        · have solid : isSpace char = false := isSpace_of_skipSpace skipped
          rw [readWith_plain rfl solid ⟨quote, bracket, brace⟩,
            readWith_plain rfl solid ⟨quote, bracket, brace⟩, ← unified]
          exact tolerates_readPlain (char :: rest)

theorem tolerates_readValue (depth : Nat) : Tolerates (readValue depth) := by
  induction depth with
  | zero => exact tolerates_readWith nofun
  | succ depth ih =>
    apply tolerates_readWith
    rintro reader same
    cases same
    exact ih

/-- A text and the same text with its newlines unified hold the same value, or both hold none. -/
theorem read?_unifyNewlines (depth : Nat) (text : Text) :
    read? depth (unifyNewlines text) = read? depth text := by
  have blank (rest : Text) : (skipSpace (unifyNewlines rest)).isEmpty = (skipSpace rest).isEmpty := by
    rw [skipSpace_unifyNewlines]
    cases skipped : skipSpace rest with
    | nil => rfl
    | cons char behind =>
      rw [unifyNewlines_cons (ne_return_of_skipSpace skipped)]
      rfl
  rw [read?, read?, tolerates_readValue]
  cases readValue depth text with
  | none => rfl
  | some found =>
    simp only [Option.map_some, Option.bind_eq_bind, Option.bind_some, blank]

end Values

end Json

end NextEdit
