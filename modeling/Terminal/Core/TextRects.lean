import Terminal.Core.Words

/-!
# Selection rectangles (`textBuffer.cpp`)

One rectangle for each row of a selection, widened to whole glyphs.
-/

namespace Terminal.Core.Screen

open Terminal.Types
open Terminal.Buffer (LineRendition)

def screenToBufferColumn (lineRendition : LineRendition) (x : Int) : Int :=
  if lineRendition = .singleWidth then x else x / 2

variable (screen : Screen)

def expandTextRow (textRow : Viewport) : Viewport :=
  let first : Point := ⟨textRow.left, textRow.top⟩
  let last : Point := ⟨textRow.rightInclusive, textRow.bottomInclusive⟩
  { textRow with
    left :=
      if screen.dbcsAttrAt first = .trailing then
        if first.x = screen.getSize.left then (screen.getSize.incrementInBounds first).1.x
        else (screen.getSize.decrementInBounds first).1.x
      else textRow.left
    rightInclusive :=
      if screen.dbcsAttrAt last = .leading then
        if last.x = screen.getSize.rightInclusive then (screen.getSize.decrementInBounds last).1.x
        else (screen.getSize.incrementInBounds last).1.x
      else textRow.rightInclusive }

def rowRange (higherCoord lowerCoord : Point) (blockSelection : Bool) (row : Int) : Int × Int :=
  if blockSelection ∨ higherCoord.y = lowerCoord.y then
    (min higherCoord.x lowerCoord.x, max higherCoord.x lowerCoord.x)
  else
    (if row = higherCoord.y then higherCoord.x else screen.getSize.left,
      if row = lowerCoord.y then lowerCoord.x else screen.getSize.rightInclusive)

/-- `lineRendition` is read where coordinates are those of the screen. -/
def getTextRects (lineRendition : Int → LineRendition) (startPos endPos : Point)
    (blockSelection bufferCoordinates : Bool) : List Viewport :=
  let coords := if screen.getSize.compareInBounds startPos endPos ≤ 0 then (startPos, endPos) else (endPos, startPos)
  (List.range (1 + coords.2.y - coords.1.y).toNat).map fun i : Nat =>
    let row := coords.1.y + i
    let range := screen.rowRange coords.1 coords.2 blockSelection row
    let toBuffer := if bufferCoordinates then id else screenToBufferColumn (lineRendition row)
    screen.expandTextRow ⟨toBuffer range.1, row, toBuffer range.2, row⟩

/-! ## What they cover -/

def WideGlyphs : Prop :=
  ∀ p, screen.getSize.Contains p → screen.text.isTrailer p → 0 < p.x ∧ ¬screen.text.isTrailer ⟨p.x - 1, p.y⟩

def InSelection (startPos endPos : Point) (blockSelection : Bool) (p : Point) : Prop :=
  screen.getSize.Contains p ∧
    if blockSelection then startPos.y ≤ p.y ∧ p.y ≤ endPos.y ∧ min startPos.x endPos.x ≤ p.x ∧
      p.x ≤ max startPos.x endPos.x
    else startPos ≤ p ∧ p ≤ endPos

def Selected (lineRendition : Int → LineRendition) (startPos endPos : Point)
    (blockSelection bufferCoordinates : Bool) (p : Point) : Prop :=
  ∃ x, screen.InSelection startPos endPos blockSelection ⟨x, p.y⟩ ∧
    p.x = if bufferCoordinates then x else screenToBufferColumn (lineRendition p.y) x

def Halves (p q : Point) : Prop :=
  screen.dbcsAttrAt p = .leading ∧ q = ⟨p.x + 1, p.y⟩ ∨ screen.dbcsAttrAt p = .trailing ∧ q = ⟨p.x - 1, p.y⟩

/-- One row: the selected cells and the other halves of their glyphs. -/
structure Covers (screen : Screen) (Selected : Point → Prop) (rect : Viewport) : Prop where
  row : rect.bottomInclusive = rect.top
  covers : ∀ p, p.y = rect.top → Selected p → rect.Contains p
  tight : ∀ p, rect.Contains p → Selected p ∨ ∃ q, Selected q ∧ screen.Halves q p
  whole : ∀ p q, rect.Contains p → screen.Halves p q → rect.Contains q

variable {screen : Screen}

theorem dbcsAttrAt_eq_trailing {p : Point} : screen.dbcsAttrAt p = .trailing ↔ screen.text.isTrailer p := by
  unfold dbcsAttrAt
  split_ifs <;> simp_all

theorem dbcsAttrAt_eq_leading {p : Point} : screen.dbcsAttrAt p = .leading ↔
    ¬screen.text.isTrailer p ∧ p.x + 1 < screen.size.width ∧ screen.text.isTrailer ⟨p.x + 1, p.y⟩ := by
  unfold dbcsAttrAt
  split_ifs <;> simp_all

theorem contains_expandTextRow (hwf : screen.WideGlyphs) {l r y : Int} (hl : screen.getSize.Contains ⟨l, y⟩)
    (hr : screen.getSize.Contains ⟨r, y⟩) (p : Point) :
    (screen.expandTextRow ⟨l, y, r, y⟩).Contains p ↔
      p.y = y ∧ (if screen.dbcsAttrAt ⟨l, y⟩ = .trailing then l - 1 else l) ≤ p.x ∧
        p.x ≤ if screen.dbcsAttrAt ⟨r, y⟩ = .leading then r + 1 else r := by
  have hleft : (screen.expandTextRow ⟨l, y, r, y⟩).left = if screen.dbcsAttrAt ⟨l, y⟩ =
    .trailing then l - 1 else l := by
    simp only [expandTextRow]
    split_ifs with htrailer hzero
    · exact absurd (hwf _ hl (dbcsAttrAt_eq_trailing.1 htrailer)).1 (by simp_all)
    · rw [decrementInBounds_row hl (hwf _ hl (dbcsAttrAt_eq_trailing.1 htrailer)).1]
    · rfl
  have hright : (screen.expandTextRow ⟨l, y, r, y⟩).rightInclusive =
      if screen.dbcsAttrAt ⟨r, y⟩ = .leading then r + 1 else r := by
    simp only [expandTextRow]
    split_ifs with hleading hlast
    · have := (dbcsAttrAt_eq_leading.1 hleading).2.1
      simp only [getSize_rightInclusive] at *
      omega
    · rw [incrementInBounds_row hr (by have := (dbcsAttrAt_eq_leading.1 hleading).2.1; dsimp only at *; omega)]
    · rfl
  rw [← hleft, ← hright]
  simp only [Viewport.Contains, Viewport.rightExclusive, Viewport.bottomExclusive, expandTextRow]
  omega

theorem covers_expandTextRow (hwf : screen.WideGlyphs) {l r y : Int} (hlr : l ≤ r) (hl : screen.getSize.Contains ⟨l, y⟩)
    (hr : screen.getSize.Contains ⟨r, y⟩) {P : Point → Prop} (hP : ∀ x, P ⟨x, y⟩ ↔ l ≤ x ∧ x ≤ r) :
    screen.Covers P (screen.expandTextRow ⟨l, y, r, y⟩) := by
  have hcontains := contains_expandTextRow hwf hl hr
  refine ⟨rfl, ?_, ?_, ?_⟩
  · rintro ⟨x, _⟩ rfl hp
    have := (hP x).1 hp
    refine (hcontains _).2 ⟨rfl, ?_⟩
    dsimp only
    split_ifs <;> omega
  · rintro ⟨x, z⟩ hp
    obtain ⟨rfl, hlo, hhi⟩ := (hcontains _).1 hp
    dsimp only at *
    obtain hx | hlt | hlt : l ≤ x ∧ x ≤ r ∨ x < l ∨ r < x := by omega
    · exact Or.inl ((hP x).2 hx)
    · have htrailing : screen.dbcsAttrAt ⟨l, z⟩ = .trailing := by
        by_contra h
        rw [if_neg h] at hlo
        omega
      exact Or.inr ⟨⟨l, z⟩, (hP l).2 ⟨le_rfl, hlr⟩, Or.inr ⟨htrailing, Point.ext (by dsimp only; omega) rfl⟩⟩
    · have hleading : screen.dbcsAttrAt ⟨r, z⟩ = .leading := by
        by_contra h
        rw [if_neg h] at hhi
        omega
      exact Or.inr ⟨⟨r, z⟩, (hP r).2 ⟨hlr, le_rfl⟩, Or.inl ⟨hleading, Point.ext (by dsimp only; omega) rfl⟩⟩
  · rintro ⟨x, z⟩ q hp hhalves
    obtain ⟨rfl, hlo, hhi⟩ := (hcontains _).1 hp
    dsimp only at *
    obtain ⟨hleading, rfl⟩ | ⟨htrailing, rfl⟩ := hhalves
    · refine (hcontains _).2 ⟨rfl, by dsimp only; omega, ?_⟩
      dsimp only
      -- the half behind the last cell is trailing
      split_ifs at hhi ⊢ with h
      · have hne : x ≠ r + 1 := by
          rintro rfl
          exact (dbcsAttrAt_eq_leading.1 hleading).1 (dbcsAttrAt_eq_leading.1 h).2.2
        omega
      · have hne : x ≠ r := by
          rintro rfl
          exact h hleading
        omega
    · refine (hcontains _).2 ⟨rfl, ?_, by dsimp only; omega⟩
      dsimp only
      split_ifs at hlo ⊢ with h
      · have hne : x ≠ l - 1 := by
          rintro rfl
          exact (hwf _ hl (dbcsAttrAt_eq_trailing.1 h)).2 (dbcsAttrAt_eq_trailing.1 htrailing)
        omega
      · have hne : x ≠ l := by
          rintro rfl
          exact h htrailing
        omega

section
variable {startPos endPos : Point} (hstart : screen.getSize.Contains startPos) (hend : screen.getSize.Contains endPos)
  (hle : startPos ≤ endPos) {row : Int} (hrow : startPos.y ≤ row ∧ row ≤ endPos.y) (blockSelection : Bool)
include hstart hend hle hrow

theorem rowRange_spec : let range := screen.rowRange startPos endPos blockSelection row
    range.1 ≤ range.2 ∧ screen.getSize.Contains ⟨range.1, row⟩ ∧ screen.getSize.Contains ⟨range.2, row⟩ ∧
      ∀ x, screen.InSelection startPos endPos blockSelection ⟨x, row⟩ ↔ range.1 ≤ x ∧ x ≤ range.2 := by
  rw [contains_getSize_iff] at hstart hend
  rw [Point.le_def] at hle
  unfold rowRange InSelection
  simp only [contains_getSize_iff, Point.le_def, getSize_left, getSize_rightInclusive]
  cases blockSelection
  all_goals simp only [Bool.false_eq_true, false_or, true_or, if_true, if_false]
  · split_ifs <;> exact ⟨by omega, by omega, by omega, fun x => by omega⟩
  · exact ⟨by omega, by omega, by omega, fun x => by omega⟩
end

theorem exists_screenToBufferColumn {l r : Int} (hlr : l ≤ r) (lineRendition : LineRendition) (z : Int) :
    (∃ x, (l ≤ x ∧ x ≤ r) ∧ z = screenToBufferColumn lineRendition x) ↔
      screenToBufferColumn lineRendition l ≤ z ∧ z ≤ screenToBufferColumn lineRendition r := by
  unfold screenToBufferColumn
  split_ifs
  · simp
  · constructor
    · omega
    · intro hz
      exact ⟨max l (2 * z), by omega, by omega⟩

theorem getTextRects_covers (hwf : screen.WideGlyphs) {startPos endPos : Point}
    (hstart : screen.getSize.Contains startPos)
    (hend : screen.getSize.Contains endPos) (hle : startPos ≤ endPos) (lineRendition : Int → LineRendition)
    (blockSelection inBuffer : Bool) :
    let rects := screen.getTextRects lineRendition startPos endPos blockSelection inBuffer
    rects.map (·.top) = (List.range (1 + endPos.y - startPos.y).toNat).map
      (fun i : Nat => startPos.y + i) ∧ ∀ rect ∈ rects,
        screen.Covers (screen.Selected lineRendition startPos endPos blockSelection inBuffer) rect := by
  unfold getTextRects
  simp only [if_pos ((Viewport.compareInBounds_nonpos hstart hend).2 hle), List.map_map, List.forall_mem_map]
  refine ⟨rfl, fun i hi => ?_⟩
  have hrow : startPos.y ≤ startPos.y + (i : Int) ∧ startPos.y + (i : Int) ≤ endPos.y := by
    rw [List.mem_range] at hi
    omega
  obtain ⟨hlr, hl, hr, hrange⟩ := rowRange_spec hstart hend hle hrow blockSelection
  generalize startPos.y + (i : Int) = row at *
  generalize screen.rowRange _ _ _ _ = range at *
  have hcolumns (x : Int) : screen.Selected lineRendition startPos endPos blockSelection inBuffer ⟨x, row⟩ ↔
      ∃ z, (range.1 ≤ z ∧ z ≤ range.2) ∧ x = if inBuffer then z else screenToBufferColumn (lineRendition row) z := by
    simp only [Selected, hrange]
  cases inBuffer
  · have hmono := (exists_screenToBufferColumn hlr (lineRendition row) _).1 ⟨_, ⟨le_rfl, hlr⟩, rfl⟩
    have hin {x : Int} (hx : screen.getSize.Contains ⟨x, row⟩) :
        screen.getSize.Contains ⟨screenToBufferColumn (lineRendition row) x, row⟩ := by
      unfold screenToBufferColumn
      rw [contains_getSize_iff] at *
      split_ifs <;> dsimp only at * <;> omega
    refine covers_expandTextRow hwf hmono.2 (hin hl) (hin hr) fun x => ?_
    exact (hcolumns x).trans (exists_screenToBufferColumn hlr _ x)
  · exact covers_expandTextRow hwf hlr hl hr fun x => by simp [hcolumns]

theorem getTextRects_covers_wide :
    let screen : Screen := ⟨⟨4, 1⟩, ⟨0, 0⟩, ⟨fun _ => .regularChar, fun p => p = ⟨1, 0⟩⟩⟩
    screen.getTextRects (fun _ => .singleWidth) ⟨1, 0⟩ ⟨2, 0⟩ false true = [⟨0, 0, 2, 0⟩] ∧
      screen.Covers (screen.Selected (fun _ => .singleWidth) ⟨1, 0⟩ ⟨2, 0⟩ false true) ⟨0, 0, 2, 0⟩ := by
  intro screen
  have hrects : screen.getTextRects (fun _ => .singleWidth) ⟨1, 0⟩ ⟨2, 0⟩ false true = [⟨0, 0, 2, 0⟩] := by decide
  have hwf : screen.WideGlyphs := by
    intro p _ htrailer
    obtain rfl : p = ⟨1, 0⟩ := of_decide_eq_true htrailer
    decide
  have hcovers := (getTextRects_covers hwf (show screen.getSize.Contains ⟨1, 0⟩ by decide)
    (show screen.getSize.Contains ⟨2, 0⟩ by decide) (by decide) (fun _ => .singleWidth) false true).2
  exact ⟨hrects, hcovers _ (List.mem_singleton_self _)⟩

end Terminal.Core.Screen
