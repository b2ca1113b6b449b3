import NextEdit.Proofs.Legacy.Echo
import NextEdit.Proofs.Region.Resolution

/-! The legacy excerpt and the region of the other formats. Both check the same offsets, the one in the
whole excerpt and all before any comparison, the other in the context once that is cut out; they
accept the same windows and cut them into the same texts. -/
namespace NextEdit.Legacy

variable {request : Request} {window : Window} {region : Region}

/-- The checks of the legacy excerpt hold where the window fits. -/
theorem checkCuts_eq_ok_iff :
    checkCuts request window.editable window.context = .ok () ↔ request.Fits window := by
  constructor
  · intro checks
    obtain ⟨_, contextFits, checks⟩ := exists_of_bind_eq_ok checks
    obtain ⟨_, editableFits, checks⟩ := exists_of_bind_eq_ok checks
    obtain ⟨_, cursorFits, checks⟩ := exists_of_bind_eq_ok checks
    obtain ⟨nested, checks⟩ := not_of_guard checks
    obtain ⟨inside, _⟩ := not_of_guard checks
    obtain ⟨contextStart, contextStop⟩ := Text.checkSpan_eq_ok_iff.mp contextFits
    obtain ⟨editableStart, editableStop⟩ := Text.checkSpan_eq_ok_iff.mp editableFits
    obtain ⟨cursor, _⟩ := Text.checkSpan_eq_ok_iff.mp cursorFits
    refine ⟨Text.le_byteCount_of_isBoundary contextStop, Bool.not_eq_false _ ▸ nested, by omega,
      by omega, ?_⟩
    simpa [contextStart, contextStop, editableStart, editableStop, Span.point] using cursor
  · intro fits
    have nested : ¬ window.context.contains window.editable = false := by
      rw [fits.nested]
      decide
    have inside : ¬ (request.cursor < window.editable.start ∨
        window.editable.stop < request.cursor) := by
      have := fits.cursorStart
      have := fits.cursorStop
      omega
    have boundary {offset : Nat} := fits.boundaries offset
    rw [checkCuts, Text.checkSpan_eq_ok_iff.mpr ⟨boundary (by simp), boundary (by simp)⟩,
      Text.checkSpan_eq_ok_iff.mpr ⟨boundary (by simp), boundary (by simp)⟩,
      Text.checkSpan_eq_ok_iff.mpr ⟨boundary (by simp [Span.point]), boundary (by simp [Span.point])⟩]
    exact (if_neg nested).trans (if_neg inside)

/-- A region as the legacy excerpt shows it. -/
def fencedRegion (request : Request) (context : Span) (region : Region) : Text :=
  quotes ++ request.path ++ ['\n'] ++ fileStart request context ++
    region.before ++ Marker.regionStart ++ ['\n'] ++
    region.untilCursor ++ Marker.legacyCursor ++
    region.fromCursor ++ ['\n'] ++ Marker.regionEnd ++
    region.after ++ '\n' :: quotes

theorem fencedExcerpt_of_stands (stands : region.StandsBetween front back request window) :
    fencedExcerpt request window.editable window.context =
      .ok (fencedRegion request window.context region) := by
  have checks : checkCuts request window.editable window.context = .ok () :=
    checkCuts_eq_ok_iff.mpr stands.fits
  obtain ⟨before, untilCursor, fromCursor, after⟩ := stands.texts
  have line : "\n```".toList = '\n' :: quotes := by
    decide
  rw [fencedExcerpt, checks]
  simp only [before, untilCursor, fromCursor, after, line, fencedRegion, fileStart]
  rfl

/-- The legacy excerpt exists where the region does, and shows its texts. -/
theorem fencedExcerpt_agrees_with_region (request : Request) (format : Format) :
    ((∃ excerpt, fencedExcerpt request (request.window format).editable
        (request.window format).context = .ok excerpt) ↔
      ∃ region, request.region format = .ok region) ∧
      ∀ region, request.region format = .ok region →
        fencedExcerpt request (request.window format).editable (request.window format).context =
          .ok (fencedRegion request (request.window format).context region) := by
  have shown {region : Region} (resolves : request.region format = .ok region) :
      fencedExcerpt request (request.window format).editable (request.window format).context =
        .ok (fencedRegion request (request.window format).context region) := by
    obtain ⟨front, back, stands⟩ := Request.region_eq_ok_iff.mp resolves
    exact fencedExcerpt_of_stands stands
  refine ⟨⟨?_, ?_⟩, fun region => shown⟩
  · rintro ⟨excerpt, succeeds⟩
    obtain ⟨_, checks, _⟩ := exists_of_bind_eq_ok succeeds
    exact Request.exists_region_iff_fits.mpr (checkCuts_eq_ok_iff.mp checks)
  · rintro ⟨region, resolves⟩
    exact ⟨_, shown resolves⟩

theorem fencedExcerpt_agrees_with_region_of_windowed :
    Request.windowed.region .ordered = .ok Request.windowedRegion ∧
      fencedExcerpt Request.windowed (Request.windowed.window .ordered).editable
          (Request.windowed.window .ordered).context =
        .ok (fencedRegion Request.windowed (Request.windowed.window .ordered).context
          Request.windowedRegion) := by
  have resolves : Request.windowed.region .ordered = .ok Request.windowedRegion := by rfl
  exact ⟨resolves, (fencedExcerpt_agrees_with_region Request.windowed .ordered).2 _ resolves⟩

end NextEdit.Legacy
