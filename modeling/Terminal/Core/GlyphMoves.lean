import Terminal.Buffer.CellIterator
import Terminal.Core.TextRects

/-!
# Moves by glyphs (`textBuffer.cpp`)

To the next glyph through the cell iterator, to the previous one by positions.
-/

namespace Terminal.Core.Screen

open Terminal.Types
open Terminal.Buffer (CellIterator RowCells)
open Viewport

def cells (screen : Screen) (y : Int) : RowCells Unit Unit :=
  ⟨fun _ => (), fun x => screen.dbcsAttrAt ⟨x, y⟩, fun _ => ()⟩

def moveToNextGlyph (screen : Screen) (pos : Point) (allowExclusiveEnd : Bool) : Point × Bool :=
  let bufferSize := screen.getSize
  let distanceToLimit := bufferSize.compareInBounds pos bufferSize.endExclusive
  if distanceToLimit ≥ 0 then (bufferSize.endExclusive, false)
  else if ¬allowExclusiveEnd ∧ distanceToLimit = -1 then (pos, false)
  else
    let iter := CellIterator.advance screen.cells bufferSize 1 (CellIterator.start screen.cells pos)
    let success := !iter.exceeded && bufferSize.Contains iter.pos
    let iter := if success ∧ iter.view.dbcsAttr = .trailing then iter.advance screen.cells bufferSize 1 else iter
    (iter.pos, success)

def moveToPreviousGlyph (screen : Screen) (pos : Point) : Point × Bool :=
  let bufferSize := screen.getSize
  if bufferSize.compareInBounds pos bufferSize.endExclusive > 0 then (bufferSize.endExclusive, true)
  else
    let moved := bufferSize.decrementInBounds pos true
    if moved.1 ≠ bufferSize.endExclusive ∧ screen.dbcsAttrAt moved.1 = .leading then
      ((bufferSize.decrementInBounds moved.1 true).1, moved.2)
    else moved

/-! ## There and back -/

def FirstCell (screen : Screen) (p : Point) : Prop := screen.getSize.Contains p ∧ screen.dbcsAttrAt p ≠ .trailing

def glyphWidth (screen : Screen) (p : Point) : Int := if screen.dbcsAttrAt p = .leading then 2 else 1

def InFirstGlyph (screen : Screen) (p : Point) : Prop :=
  screen.getSize.index p = 0 ∨ screen.getSize.Contains p ∧ screen.getSize.index p = 1 ∧ screen.dbcsAttrAt p = .trailing

/-- The next glyph and back is no move, and every move back ends at a glyph. -/
structure Invertible (screen : Screen) : Prop where
  next : ∀ p allow, screen.FirstCell p → screen.getSize.index p + screen.glyphWidth p < screen.getSize.cellCount →
    screen.FirstCell (screen.moveToNextGlyph p allow).1 ∧
      screen.getSize.index (screen.moveToNextGlyph p allow).1 = screen.getSize.index p + screen.glyphWidth p
  back : ∀ p allow, screen.FirstCell p → screen.getSize.index p + screen.glyphWidth p < screen.getSize.cellCount →
    (screen.moveToPreviousGlyph (screen.moveToNextGlyph p allow).1).1 = p
  lands : ∀ q, screen.getSize.isInBounds q true → ¬screen.InFirstGlyph q →
    screen.FirstCell (screen.moveToPreviousGlyph q).1

variable {screen : Screen} {p q : Point}

theorem moveToPreviousGlyph_eq (hp : screen.getSize.Contains p) (hq : screen.getSize.isInBounds q true)
    (hindex : screen.getSize.index q = screen.getSize.index p + 1) (hleading : screen.dbcsAttrAt p ≠ .leading) :
    (screen.moveToPreviousGlyph q).1 = p := by
  have hne := hp.nonempty
  obtain ⟨hsuccess, hmoves, -⟩ := (decrement_turns hne hq).movesBy hne
  have hbounds := index_bounds hp
  have hlimit := index_lt_limit hne hq
  obtain ⟨hin, hdec⟩ := hmoves (hsuccess.2 (by omega))
  have hmoved : (screen.getSize.decrementInBounds q true).1 = p :=
    index_injOn hin (Or.inr hp : screen.getSize.isInBounds p true) (by rw [hdec]; omega)
  unfold moveToPreviousGlyph
  simp only [hmoved, hleading, and_false, if_false]
  rw [if_neg, hmoved]
  rw [compareInBounds_eq, index_endExclusive]
  omega

theorem moveToNextGlyph_eq (hp : screen.getSize.Contains p) (hq : screen.getSize.Contains q)
    (hindex : screen.getSize.index q = screen.getSize.index p + 1) (htrailing : screen.dbcsAttrAt q ≠ .trailing)
    (allowExclusiveEnd : Bool) : (screen.moveToNextGlyph p allowExclusiveEnd).1 = q := by
  have hbounds := index_bounds hq
  obtain ⟨hin, hsuccess, hmoves, -⟩ := repeat_increment_spec hp 1
  have hok := hsuccess.2 (by push_cast; omega)
  have hmoved := index_injOn (Or.inr hin : screen.getSize.isInBounds _) (Or.inr hq)
    ((hmoves hok).trans (by push_cast; omega))
  have hadvance : CellIterator.advance screen.cells screen.getSize 1 (CellIterator.start screen.cells p) =
      CellIterator.atPos screen.cells q false := by
    change CellIterator.advance screen.cells screen.getSize (1 : Nat) (CellIterator.atPos screen.cells p false) = _
    rw [CellIterator.advance_atPos, CellIterator.walk_eq 1 p false hp, if_pos hok, hmoved]
    rfl
  unfold moveToNextGlyph
  simp only [hadvance]
  rw [if_neg, if_neg]
  · simp [CellIterator.atPos, cells, htrailing]
  · rw [compareInBounds_eq, index_endExclusive]
    omega
  · rw [compareInBounds_eq, index_endExclusive]
    omega

theorem exists_next (hp : screen.getSize.Contains p) {allow : Bool}
    (h : screen.getSize.index p + 1 < screen.getSize.limit allow) :
    ∃ q, screen.getSize.isInBounds q allow ∧ screen.getSize.index q = screen.getSize.index p + 1 := by
  obtain ⟨hsuccess, hmoves, -⟩ := (increment_turns hp.nonempty (Or.inr hp)).movesBy hp.nonempty
  exact ⟨_, hmoves (hsuccess.2 ⟨by have := index_bounds hp; omega, h⟩)⟩

/-- A move back lands on the cell in front, even within a glyph. -/
theorem firstCell_moveToPreviousGlyph_iff (hp : screen.getSize.Contains p) (hq : screen.getSize.isInBounds q true)
    (hindex : screen.getSize.index q = screen.getSize.index p + 1) (hleading : screen.dbcsAttrAt p ≠ .leading) :
    screen.FirstCell (screen.moveToPreviousGlyph q).1 ↔ screen.dbcsAttrAt p ≠ .trailing := by
  rw [moveToPreviousGlyph_eq hp hq hindex hleading]
  exact and_iff_right hp

/-- The moves are inverse just where there are no wide glyphs. -/
theorem invertible_iff (hsize : 0 < screen.size.width ∧ 0 < screen.size.height) (hwf : screen.WideGlyphs) :
    screen.Invertible ↔ ∀ p, screen.getSize.Contains p → screen.dbcsAttrAt p ≠ .trailing := by
  constructor
  · intro hinv p hp htrailing
    have hbounds := index_bounds hp
    obtain ⟨q, hq, hindex⟩ := exists_next hp (show _ < screen.getSize.limit true by simp only [limit, if_true]; omega)
    have hlands := firstCell_moveToPreviousGlyph_iff hp hq hindex (by simp [htrailing])
    refine hlands.1 (hinv.lands q hq ?_) htrailing
    have hfirst : screen.getSize.index p ≠ 0 := by
      intro hzero
      have hx := (hwf p hp (dbcsAttrAt_eq_trailing.1 htrailing)).1
      obtain rfl := index_injOn (Or.inr hp : screen.getSize.isInBounds p)
        (Or.inr (show screen.getSize.Contains ⟨0, 0⟩ by
        rw [contains_getSize_iff] at *; dsimp only; omega)) (hzero.trans screen.getSize.index_origin.symm)
      simp at hx
    rintro (hzero | ⟨-, hone, -⟩) <;> omega
  · intro hnarrow
    have hleading (p : Point) (hp : screen.getSize.Contains p) : screen.dbcsAttrAt p ≠ .leading := by
      intro h
      obtain ⟨-, hwidth, htrailer⟩ := dbcsAttrAt_eq_leading.1 h
      rw [contains_getSize_iff] at hp
      exact hnarrow ⟨p.x + 1, p.y⟩ (contains_getSize_iff.2 (by dsimp only; omega)) (dbcsAttrAt_eq_trailing.2 htrailer)
    have hnext (p : Point) (hp : screen.FirstCell p)
        (hlast : screen.getSize.index p + screen.glyphWidth p < screen.getSize.cellCount) :
        ∃ q, screen.getSize.Contains q ∧ screen.getSize.index q = screen.getSize.index p + 1 := by
      rw [glyphWidth, if_neg (hleading p hp.1)] at hlast
      obtain ⟨q, hq, hindex⟩ := exists_next hp.1 (show _ < screen.getSize.limit false from hlast)
      exact ⟨q, by simpa [isInBounds] using hq, hindex⟩
    refine ⟨fun p allow hp hlast => ?_, fun p allow hp hlast => ?_, fun q hq hfirst => ?_⟩
    · obtain ⟨q, hq, hindex⟩ := hnext p hp hlast
      rw [moveToNextGlyph_eq hp.1 hq hindex (hnarrow q hq), glyphWidth, if_neg (hleading p hp.1)]
      exact ⟨⟨hq, hnarrow q hq⟩, hindex⟩
    · obtain ⟨q, hq, hindex⟩ := hnext p hp hlast
      rw [moveToNextGlyph_eq hp.1 hq hindex (hnarrow q hq)]
      exact moveToPreviousGlyph_eq hp.1 (Or.inr hq) hindex (hleading p hp.1)
    · have hne : screen.getSize.left ≤ screen.getSize.rightInclusive ∧ screen.getSize.top ≤
        screen.getSize.bottomInclusive := by
        simp only [getSize_left, getSize_top, getSize_rightInclusive, getSize_bottomInclusive]
        omega
      have hlimit := index_lt_limit hne hq
      obtain ⟨hsuccess, hmoves, -⟩ := (decrement_turns hne hq).movesBy hne
      have hpos : 0 < screen.getSize.index q := by
        have : screen.getSize.index q ≠ 0 := fun hzero => hfirst (Or.inl hzero)
        omega
      obtain ⟨hin, hindex⟩ := hmoves (hsuccess.2 (by omega))
      generalize (walkInBounds _ q _ true).1 = r at *
      have hr : screen.getSize.Contains r := by
        refine hin.resolve_left ?_
        rintro ⟨-, rfl⟩
        rw [index_endExclusive] at hindex
        simp only [limit] at hlimit
        omega
      exact (firstCell_moveToPreviousGlyph_iff hr hq (by omega) (hleading r hr)).2 (hnarrow r hr)

def pair (wide : Bool) : Screen := ⟨⟨2, 2⟩, ⟨0, 0⟩, ⟨fun _ => .regularChar, fun p => wide && p = ⟨1, 0⟩⟩⟩

theorem invertible_iff_pair : (pair false).Invertible :=
  (invertible_iff (by decide) fun p _ h => by simp [pair] at h).2 fun p _ => by simp [pair, dbcsAttrAt]

/-- From the second row, a move back stops within the wide glyph. -/
theorem not_invertible_pair : ¬(pair true).Invertible := fun h =>
  (h.lands ⟨0, 1⟩ (Or.inr (by decide)) (by unfold InFirstGlyph; decide)).2 (by decide)

end Terminal.Core.Screen
