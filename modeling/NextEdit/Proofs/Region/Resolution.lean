import NextEdit.Proofs.Region.Cut
import NextEdit.Proofs.Text.Octets

/-! Which windows give a region. The checks are made partly on the excerpt and partly on the context
cut out of it, but together they ask for one thing: the five offsets are boundaries of the excerpt, in
order. The region then stands in the excerpt where the offsets say. -/
namespace NextEdit

variable {request : Request} {window : Window} {region : Region}

/-- What a request asks of a window, in offsets of its excerpt. -/
structure Request.Fits (request : Request) (window : Window) : Prop where
  contextEnds : window.context.stop ≤ request.excerpt.byteCount
  nested : window.context.contains window.editable = true
  cursorStart : window.editable.start ≤ request.cursor
  cursorStop : request.cursor ≤ window.editable.stop
  boundaries : ∀ offset ∈ [window.context.start, window.context.stop, window.editable.start,
    window.editable.stop, request.cursor], request.excerpt.isBoundary offset = true

theorem Span.eq_of_bounds {first second : Span} (start : first.start = second.start)
    (stop : first.stop = second.stop) : first = second := by
  cases first
  cases second
  cases start
  cases stop
  rfl

namespace Region

/-- The region stands in the excerpt between two texts, and the window and the cursor are its own. -/
structure StandsBetween (front back : Text) (request : Request) (window : Window) (region : Region) :
    Prop where
  parts : request.excerpt = front ++ (region.context ++ back)
  contextStart : front.byteCount = window.context.start
  contextStop : front.byteCount + region.context.byteCount = window.context.stop
  editableStart : front.byteCount + region.before.byteCount = window.editable.start
  cursor : front.byteCount + region.cursor = request.cursor
  editableStop : front.byteCount + region.editable.stop = window.editable.stop

theorem byteCount_context (region : Region) :
    region.context.byteCount = region.editable.stop + region.after.byteCount := by
  simp only [context, editable, Text.byteCount_append]

theorem editable_stop (region : Region) :
    region.editable.stop = region.cursor + region.fromCursor.byteCount := by
  simp only [editable, cursor, editableText, Text.byteCount_append, Nat.add_assoc]

/-- A region that stands somewhere stands at a window that fits. -/
theorem StandsBetween.fits (stands : region.StandsBetween front back request window) :
    request.Fits window := by
  obtain ⟨parts, contextStart, contextStop, editableStart, cursor, editableStop⟩ := stands
  have size : region.context.byteCount = region.editable.stop + region.after.byteCount :=
    region.byteCount_context
  have stop : region.editable.stop = region.cursor + region.fromCursor.byteCount :=
    region.editable_stop
  have place : region.cursor = region.before.byteCount + region.untilCursor.byteCount := rfl
  have whole : request.excerpt.byteCount =
      front.byteCount + (region.context.byteCount + back.byteCount) := by
    rw [parts, Text.byteCount_append, Text.byteCount_append]
  have boundary {left right : Text} (cut : request.excerpt = left ++ right) :
      request.excerpt.isBoundary left.byteCount = true :=
    Text.isBoundary_iff.mpr ⟨left, right, cut, rfl⟩
  have pieces : request.excerpt = front ++ (region.before ++ (region.untilCursor ++
      (region.fromCursor ++ (region.after ++ back)))) := by
    simp only [parts, context, editableText, List.append_assoc]
  refine ⟨by omega, ?_, by omega, by omega, ?_⟩
  · simp only [Span.contains, Bool.and_eq_true, decide_eq_true_eq]
    omega
  · have first := boundary pieces
    have second := boundary (parts.trans (List.append_assoc _ _ _).symm)
    have third := boundary (pieces.trans (List.append_assoc _ _ _).symm)
    have fourth := boundary (show request.excerpt =
        (front ++ (region.before ++ region.editableText)) ++ (region.after ++ back) by
      simp only [pieces, editableText, List.append_assoc])
    have fifth := boundary (show request.excerpt =
        (front ++ (region.before ++ region.untilCursor)) ++
          (region.fromCursor ++ (region.after ++ back)) by
      simp only [pieces, List.append_assoc])
    rw [contextStart] at first
    rw [Text.byteCount_append, contextStop] at second
    rw [Text.byteCount_append, editableStart] at third
    rw [Text.byteCount_append, Text.byteCount_append,
      show region.before.byteCount + region.editableText.byteCount = region.editable.stop from rfl,
      editableStop] at fourth
    rw [Text.byteCount_append, Text.byteCount_append, ← place, cursor] at fifth
    simp [first, second, third, fourth, fifth]

theorem exists_stands_of_fits (fits : request.Fits window) :
    ∃ region front back, StandsBetween front back request window region := by
  obtain ⟨contextStart, contextStop, editableStart, editableStop, cursor⟩ :
      request.excerpt.isBoundary window.context.start = true ∧
      request.excerpt.isBoundary window.context.stop = true ∧
      request.excerpt.isBoundary window.editable.start = true ∧
      request.excerpt.isBoundary window.editable.stop = true ∧
      request.excerpt.isBoundary request.cursor = true := by
    simpa using fits.boundaries
  have nested := fits.nested
  simp only [Span.contains, Bool.and_eq_true, decide_eq_true_eq] at nested
  obtain ⟨lead, left, right, tail, parts, start, middle, stop⟩ :=
    Text.exists_four_parts editableStart cursor editableStop fits.cursorStart fits.cursorStop
  obtain ⟨front, rest, frontParts, frontPlace⟩ := Text.isBoundary_iff.mp contextStart
  obtain ⟨longer, back, backParts, backPlace⟩ := Text.isBoundary_iff.mp contextStop
  obtain ⟨before, rfl⟩ : front <+: lead :=
    Text.isPrefix_of_byteCount_le ⟨rest, frontParts.symm⟩ ⟨_, parts.symm⟩ (by omega)
  have edited : request.excerpt = (front ++ before ++ (left ++ right)) ++ tail := by
    simp only [parts, List.append_assoc]
  obtain ⟨after, rfl⟩ : front ++ before ++ (left ++ right) <+: longer := by
    refine Text.isPrefix_of_byteCount_le ⟨tail, edited.symm⟩ ⟨back, backParts.symm⟩ ?_
    simp only [Text.byteCount_append] at start stop ⊢
    omega
  simp only [Text.byteCount_append] at start middle stop backPlace
  refine ⟨{ before, untilCursor := left, fromCursor := right, after }, front, back, ?_⟩
  refine ⟨?_, frontPlace, ?_, ?_, ?_, ?_⟩
  · simp only [backParts, context, editableText, List.append_assoc]
  · simp only [context, editableText, Text.byteCount_append]
    omega
  · exact start
  · simp only [Region.cursor]
    omega
  · simp only [editable, editableText, Text.byteCount_append]
    omega

/-- The editable part of the region is that of the window, in offsets of its context. -/
theorem StandsBetween.rebased (stands : region.StandsBetween front back request window) :
    region.editable =
      { start := window.editable.start - window.context.start
        stop := window.editable.stop - window.context.start
        ordered := Nat.sub_le_sub_right window.editable.ordered window.context.start } := by
  obtain ⟨_, contextStart, _, editableStart, _, editableStop⟩ := stands
  have place : region.before.byteCount = region.editable.start := rfl
  apply Span.eq_of_bounds
  · change region.editable.start = window.editable.start - window.context.start
    omega
  · change region.editable.stop = window.editable.stop - window.context.start
    omega

end Region

namespace Request

theorem exists_stands_of_regionIn (resolves : request.regionIn window = .ok region) :
    ∃ front back, region.StandsBetween front back request window := by
  obtain ⟨text, fits, rest⟩ := exists_of_bind_eq_ok resolves
  obtain ⟨nested, rest⟩ := not_of_guard rest
  obtain ⟨inside, rest⟩ := not_of_guard rest
  obtain ⟨whole, editable, cursor⟩ := Region.cut_eq_ok_iff.mp rest
  obtain ⟨_, bounds, _⟩ := exists_of_bind_eq_ok fits
  obtain ⟨atStart, atStop⟩ := Text.checkSpan_eq_ok_iff.mp bounds
  obtain ⟨front, middle, back, parts, start, stop⟩ :=
    Text.exists_parts atStart atStop window.context.ordered
  have same : region.context = middle := by
    rw [whole, Text.eq_between_of_slice fits, parts, ← start, ← stop, Text.between_append]
  simp only [Bool.not_eq_false, Window.isNested, Span.contains, Bool.and_eq_true,
    decide_eq_true_eq] at nested
  have first : region.editable.start = window.editable.start - window.context.start :=
    congrArg Span.start editable
  have last : region.editable.stop = window.editable.stop - window.context.start :=
    congrArg Span.stop editable
  have ordered := window.editable.ordered
  have place : region.before.byteCount = region.editable.start := rfl
  refine ⟨front, back, ?_, start, ?_, ?_, ?_, ?_⟩
  · rw [same, parts]
  · rw [same, stop]
  · omega
  · omega
  · omega

theorem regionIn_of_stands (stands : region.StandsBetween front back request window) :
    request.regionIn window = .ok region := by
  have fits := stands.fits
  have nested := fits.nested
  have rebased := stands.rebased
  obtain ⟨parts, contextStart, contextStop, editableStart, cursor, editableStop⟩ := stands
  have shown : request.excerpt.slice "context range".toList window.context =
      .ok region.context := by
    rw [Text.slice, Text.checkSpan_eq_ok_iff.mpr ⟨fits.boundaries _ (by simp),
      fits.boundaries _ (by simp)⟩]
    refine congrArg Except.ok ?_
    rw [← contextStart, ← contextStop, parts, Text.between_append]
  have inside :
      ¬ (request.cursor < window.context.start ∨ window.context.stop < request.cursor) := by
    simp only [Span.contains, Bool.and_eq_true, decide_eq_true_eq] at nested
    have := fits.cursorStart
    have := fits.cursorStop
    omega
  have isNested : ¬ window.isNested = false := by
    rw [Window.isNested, nested]
    decide
  rw [regionIn, shown]
  refine (if_neg isNested).trans ((if_neg inside).trans ?_)
  exact Region.cut_eq_ok_iff.mpr ⟨rfl, rebased, by omega⟩

theorem regionIn_eq_ok_iff : request.regionIn window = .ok region ↔
    ∃ front back, region.StandsBetween front back request window := by
  constructor
  · exact exists_stands_of_regionIn
  · rintro ⟨front, back, stands⟩
    exact regionIn_of_stands stands

/-- Without windows the context is the whole excerpt, and nothing is re-based. -/
theorem cut_excerpt_eq_ok_iff :
    Region.cut request.excerpt request.editable request.cursor = .ok region ↔
      ∃ front back, region.StandsBetween front back request
        { editable := request.editable, context := request.wholeExcerpt } := by
  rw [Region.cut_eq_ok_iff]
  constructor
  · rintro ⟨whole, editable, cursor⟩
    refine ⟨[], [], ?_, rfl, ?_, ?_, ?_, ?_⟩
    · rw [whole, List.nil_append, List.append_nil]
    · rw [whole, Text.byteCount_nil, Nat.zero_add]
      rfl
    · rw [Text.byteCount_nil, Nat.zero_add]
      exact congrArg Span.start editable
    · rw [Text.byteCount_nil, Nat.zero_add]
      exact Int.ofNat.inj cursor
    · rw [Text.byteCount_nil, Nat.zero_add]
      exact congrArg Span.stop editable
  · rintro ⟨front, back, parts, contextStart, contextStop, editableStart, cursor, editableStop⟩
    have nothing : front.byteCount = 0 := contextStart
    rw [nothing, Nat.zero_add] at contextStop editableStart cursor editableStop
    have whole : request.excerpt.byteCount = front.byteCount + (region.context.byteCount + back.byteCount) := by
      rw [parts, Text.byteCount_append, Text.byteCount_append]
    have size : region.context.byteCount = request.excerpt.byteCount := contextStop
    have noFront : front = [] := Text.eq_nil_of_byteCount nothing
    have noBack : back = [] := Text.eq_nil_of_byteCount (by omega)
    refine ⟨?_, Span.eq_of_bounds editableStart editableStop, congrArg Int.ofNat cursor⟩
    rw [parts, noFront, noBack, List.nil_append, List.append_nil]

theorem region_eq_ok_iff : request.region format = .ok region ↔
    ∃ front back, region.StandsBetween front back request (request.window format) := by
  cases given : request.windows with
  | some windows =>
    simp only [Request.region, Request.window, given]
    exact regionIn_eq_ok_iff
  | none =>
    simp only [Request.region, Request.window, given]
    exact cut_excerpt_eq_ok_iff

/-- A region exists exactly where the window fits. -/
theorem exists_region_iff_fits :
    (∃ region, request.region format = .ok region) ↔ request.Fits (request.window format) := by
  constructor
  · rintro ⟨region, resolves⟩
    obtain ⟨front, back, stands⟩ := region_eq_ok_iff.mp resolves
    exact stands.fits
  · intro fits
    obtain ⟨region, front, back, stands⟩ := Region.exists_stands_of_fits fits
    exact ⟨region, region_eq_ok_iff.mpr ⟨front, back, stands⟩⟩

end Request

namespace Region

/-- The parts of a region as they are read off the bytes of its context, each in its own span. -/
structure Readable (subject : Text) (region : Region) : Prop where
  before : Octets.slice region.context.encode subject 0 region.editable.start = .ok region.before
  untilCursor : Octets.slice region.context.encode subject region.editable.start region.cursor =
    .ok region.untilCursor
  fromCursor : Octets.slice region.context.encode subject region.cursor region.editable.stop =
    .ok region.fromCursor
  editableText : Octets.slice region.context.encode subject region.editable.start
    region.editable.stop = .ok region.editableText
  after : Octets.slice region.context.encode subject region.editable.stop
    region.context.encode.length = .ok region.after

theorem readable (subject : Text) (region : Region) : region.Readable subject := by
  obtain ⟨before, untilCursor, fromCursor, after⟩ := region
  have first := Octets.slice_append [] before (untilCursor ++ (fromCursor ++ after)) subject
  have second := Octets.slice_append before untilCursor (fromCursor ++ after) subject
  have third := Octets.slice_append (before ++ untilCursor) fromCursor after subject
  have fourth := Octets.slice_append before (untilCursor ++ fromCursor) after subject
  have fifth := Octets.slice_append (before ++ (untilCursor ++ fromCursor)) after [] subject
  simp only [List.append_assoc, List.nil_append, List.append_nil, Text.byteCount_append,
    Text.byteCount_nil, Nat.zero_add, Nat.add_assoc] at first second third fourth fifth
  constructor <;>
    simp only [context, editable, cursor, editableText, List.append_assoc, Text.length_encode,
      Text.byteCount_append]
  all_goals assumption

/-- The region as a part of the excerpt: its texts make up the context, they are read off its bytes
without an error, the editable span is the given one re-based, and the sizes of the texts lead from
the start of the context back to the offsets that were given. -/
structure Restores (request : Request) (window : Window) (region : Region) : Prop where
  whole : region.before ++ region.untilCursor ++ region.fromCursor ++ region.after =
    Text.between window.context.start window.context.stop request.excerpt
  readable : ∀ subject, region.Readable subject
  rebased : Span.ofInts? (window.editable.start - window.context.start)
    (window.editable.stop - window.context.start) = some region.editable
  editableStart : window.context.start + region.before.byteCount = window.editable.start
  cursor : window.editable.start + region.untilCursor.byteCount = request.cursor
  editableStop : request.cursor + region.fromCursor.byteCount = window.editable.stop
  contextStop : window.editable.stop + region.after.byteCount = window.context.stop

theorem StandsBetween.restores (stands : region.StandsBetween front back request window) :
    region.Restores request window := by
  obtain ⟨parts, contextStart, contextStop, editableStart, cursor, editableStop⟩ := stands
  have size : region.context.byteCount = region.editable.stop + region.after.byteCount :=
    region.byteCount_context
  have stop : region.editable.stop = region.cursor + region.fromCursor.byteCount :=
    region.editable_stop
  have place : region.cursor = region.before.byteCount + region.untilCursor.byteCount := rfl
  have start : region.editable.start = region.before.byteCount := rfl
  refine ⟨?_, fun subject => region.readable subject, ?_, by omega, by omega, by omega, by omega⟩
  · rw [parts, ← contextStart, ← contextStop, Text.between_append]
    simp only [context, editableText, List.append_assoc]
  · have proper : (0 : Int) ≤ window.editable.start - window.context.start ∧
        (window.editable.start - window.context.start : Int) ≤
          window.editable.stop - window.context.start := by
      omega
    rw [Span.ofInts?, dif_pos proper]
    refine congrArg some (Span.eq_of_bounds ?_ ?_)
    · change (window.editable.start - window.context.start : Int).toNat = region.editable.start
      omega
    · change (window.editable.stop - window.context.start : Int).toNat = region.editable.stop
      omega

/-- The texts of a region are those between the offsets that were given. -/
theorem StandsBetween.texts (stands : region.StandsBetween front back request window) :
    Text.between window.context.start window.editable.start request.excerpt = region.before ∧
      Text.between window.editable.start request.cursor request.excerpt = region.untilCursor ∧
      Text.between request.cursor window.editable.stop request.excerpt = region.fromCursor ∧
      Text.between window.editable.stop window.context.stop request.excerpt = region.after := by
  obtain ⟨_, _, _, editableStart, cursor, editableStop, contextStop⟩ := stands.restores
  have contextStart := stands.contextStart
  have cut {left middle right : Text} {start stop : Nat}
      (pieces : request.excerpt = left ++ (middle ++ right)) (first : left.byteCount = start)
      (last : start + middle.byteCount = stop) :
      Text.between start stop request.excerpt = middle := by
    rw [pieces, ← last, ← first, Text.between_append]
  have first : request.excerpt = front ++ (region.before ++ (region.untilCursor ++
      (region.fromCursor ++ (region.after ++ back)))) := by
    simp only [stands.parts, context, editableText, List.append_assoc]
  have second := first.trans (List.append_assoc _ _ _).symm
  have third := second.trans (List.append_assoc _ _ _).symm
  have fourth := third.trans (List.append_assoc _ _ _).symm
  refine ⟨cut first contextStart editableStart, cut second ?_ cursor, cut third ?_ editableStop,
    cut fourth ?_ contextStop⟩ <;>
  · simp only [Text.byteCount_append]
    omega

end Region

/-- Inside its context a span can be re-based. -/
theorem Window.isSome_rebased (nested : window.isNested = true) :
    (Span.ofInts? (window.editable.start - window.context.start)
      (window.editable.stop - window.context.start)).isSome = true := by
  simp only [Window.isNested, Span.contains, Bool.and_eq_true, decide_eq_true_eq] at nested
  have ordered := window.editable.ordered
  rw [Span.ofInts?, dif_pos (by omega)]
  rfl

namespace Request

/-- A region is resolved exactly where the window fits, any other window gives a range error, and a
resolved region stands in the excerpt where the window says. -/
theorem region_resolves_exactly (request : Request) (format : Format) :
    ((∃ region, request.region format = .ok region) ↔ request.Fits (request.window format)) ∧
      (¬ request.Fits (request.window format) → ∃ error, request.region format = .error error) ∧
      ((request.window format).isNested = true →
        (Span.ofInts? ((request.window format).editable.start - (request.window format).context.start)
          ((request.window format).editable.stop -
            (request.window format).context.start)).isSome = true) ∧
      ∀ region, request.region format = .ok region →
        region.Restores request (request.window format) := by
  refine ⟨exists_region_iff_fits, fun unfit => ?_, Window.isSome_rebased, fun region resolves => ?_⟩
  · cases resolves : request.region format with
    | error error => exact ⟨error, rfl⟩
    | ok region => exact absurd (exists_region_iff_fits.mp ⟨region, resolves⟩) unfit
  · obtain ⟨front, back, stands⟩ := region_eq_ok_iff.mp resolves
    exact stands.restores

/-- A request whose windows start behind a character of two bytes. -/
def windowed : Request where
  path := "main.rs".toList
  excerpt := "é\nß = 1\nπ\n".toList
  editable := { start := 0, stop := 0 }
  cursor := 5
  startRow := none
  changes := []
  relatedFiles := []
  windows :=
    let wide : Window := ⟨{ start := 3, stop := 10 }, { start := 2, stop := 13 }⟩
    some { narrow := wide, medium := wide, wide := wide, narrow_nested := rfl, medium_nested := rfl,
           wide_nested := rfl }
  preferredModel := none
  inOpenSource := false

def windowedRegion : Region where
  before := "\n".toList
  untilCursor := "ß".toList
  fromCursor := " = 1\n".toList
  after := "π\n".toList

theorem region_resolves_exactly_of_windowed :
    windowed.Fits (windowed.window .ordered) ∧ (windowed.window .ordered).isNested = true ∧
      windowed.region .ordered = .ok windowedRegion ∧
      windowedRegion.Restores windowed (windowed.window .ordered) := by
  have resolves : windowed.region .ordered = .ok windowedRegion := by rfl
  obtain ⟨fits, _, _, restores⟩ := region_resolves_exactly windowed .ordered
  exact ⟨fits.mp ⟨windowedRegion, resolves⟩, rfl, resolves, restores windowedRegion resolves⟩

end Request

end NextEdit
