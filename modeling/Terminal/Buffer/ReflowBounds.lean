import Mathlib
import Terminal.Buffer.Reflow
import Terminal.Buffer.RowRing

/-!
# Reflow stays inside of the new buffer

Whatever the old buffer holds, the new one keeps its size, and the cursor and the positions that are
handed back are inside of it.
-/

namespace Terminal.Buffer

open Terminal.Parser (Wchar)
open Std.Do TextBuffer

set_option mvcgen.warning false

/-- Of a run that ends without a fault. -/
abbrev Ensures {α : Type} (x : Except Fault α) (P : α → Prop) : Prop := ⦃⌜True⌝⦄ x ⦃⇓? r => ⌜P r⌝⦄

theorem reads {α : Type} (x : Except Fault α) : Ensures x fun _ => True := by
  cases x <;> exact fun _ => trivial

@[grind]
structure TextBuffer.Inside (size : Size) (buffer : TextBuffer) : Prop where
  size_eq : buffer.size = size
  x : buffer.cursor.x < size.width
  y : buffer.cursor.y < size.height

variable {size : Size} {buffer : TextBuffer} {row : Row}

theorem TextBuffer.Inside.startOfLine (h : Inside size buffer) : Inside size { buffer with cursor.x := 0 } :=
  ⟨h.size_eq, Nat.zero_lt_of_lt h.x, h.y⟩

@[spec]
theorem getRowByOffset_spec (index : Nat) : Ensures (buffer.getRowByOffset index) fun _ => True := reads _

@[spec]
theorem modifyRow_spec (h : Inside size buffer) (index : Nat) (f : Row → Row) :
    Ensures (buffer.modifyRow index f) (Inside size) := by
  mvcgen [modifyRow]
  grind [setRow]

@[spec]
theorem incrementCircularBuffer_spec (h : Inside size buffer) (inVtMode : Bool) :
    Ensures (buffer.incrementCircularBuffer inVtMode) (Inside size) := by
  have hrefs (buffer : TextBuffer) indices refs := reads (buffer.obsoleteRefs indices refs)
  mvcgen [incrementCircularBuffer, pruneHyperlinks, modifyRow, hrefs]
  all_goals grind [setRow, sameRows_foldl, SameRows]

abbrev Keeps (size : Size) (x : Outcome) : Prop := Ensures x fun r => Inside size r.2

@[spec]
theorem newlineCursor_spec (h : Inside size { buffer with cursor.x := 0 }) : Keeps size buffer.newlineCursor := by
  mvcgen [newlineCursor]
  all_goals grind

@[spec]
theorem getLineWidth_spec (index : Nat) : Ensures (buffer.getLineWidth index) (· ≤ buffer.size.width) := by
  mvcgen [getLineWidth]
  grind

@[spec]
theorem incrementCursor_spec (h : Inside size buffer) : Keeps size buffer.incrementCursor := by
  mvcgen [incrementCursor, setWrapOnCurrentRow, modifyRow, setRow]
  all_goals grind

@[spec]
theorem insertCharacter_spec (h : Inside size buffer) (chars : List Wchar) (dbcsAttribute : DbcsAttribute)
    (attr : TextAttribute) : Keeps size (buffer.insertCharacter chars dbcsAttribute attr) := by
  have hprevious (buffer : TextBuffer) := reads buffer.getPreviousFromCursor
  have hdbcs (row : Row) x := reads (row.dbcsAttrAt x)
  have hattr (row : Row) x attr := reads (row.setAttrToEnd x attr)
  have htry (buffer) (h : Inside size buffer) index result : Keeps size (buffer.tryRow index result) := by
    mvcgen [tryRow]
    all_goals grind [setRow]
  mvcgen [insertCharacter, prepareForDoubleByteSequence, assertValidDoubleByteSequence, storeColor,
    htry, hprevious, hdbcs, hattr]
  all_goals grind [setRow]

namespace Reflowing

/-- Positions that have been found are rows of the new buffer. -/
structure Sound (size : Size) (state : Reflowing) : Prop where
  inside : Inside size state.buffer
  cursorPos : ∀ p, state.cursorPos = some p → p.x < size.width ∧ p.y < size.height
  positions : ∀ info, state.positionInfo = some info → (state.foundOldMutable → info.mutableViewportTop < size.height) ∧
    (state.foundOldVisible → info.visibleViewportTop < size.height)

variable {state : Reflowing}

theorem Sound.setBuffer (h : Sound size state) (hbuffer : Inside size buffer) (succeeded : Bool) :
    Sound size { state with buffer, succeeded } := ⟨hbuffer, h.cursorPos, h.positions⟩

theorem Sound.setRow (h : Sound size state) (index : Nat) (row : Row) :
    Sound size { state with buffer := state.buffer.setRow index row } :=
  ⟨⟨h.inside.size_eq, h.inside.x, h.inside.y⟩, h.cursorPos, h.positions⟩

theorem Sound.noteCursorIf (h : Sound size state) (c : Prop) [Decidable c] :
    Sound size (if c then { state with cursorPos := some state.buffer.cursor } else state) := by
  split
  · refine ⟨h.inside, ?_, h.positions⟩
    rintro _ ⟨⟩
    exact ⟨h.inside.x, h.inside.y⟩
  · exact h

theorem Sound.notePositions (h : Sound size state) (iOldRow : Nat) : Sound size (state.notePositions iOldRow) := by
  unfold Reflowing.notePositions
  split
  · exact h
  · next info hinfo =>
    have hpositions := h.positions info hinfo
    have hy := h.inside.y
    refine ⟨h.inside, h.cursorPos, ?_⟩
    rintro _ ⟨⟩
    grind

@[spec]
theorem copyColumns_spec (h : Sound size state) (oldCursor : Point) (iOldRow count col : Nat) :
    Ensures (state.copyColumns oldCursor row iOldRow count col) fun r => Sound size r.2 := by
  induction count generalizing col state with
  | zero => mvcgen [copyColumns]
  | succ count ih =>
    have hnoted : Sound size (state.noteCursor oldCursor ⟨col, iOldRow⟩) := h.noteCursorIf _
    have hinside := hnoted.inside
    have hglyph (col : Nat) := reads (row.glyphAt col)
    have hdbcs (col : Nat) := reads (row.dbcsAttrAt col)
    have hattr (col : Nat) := reads (row.getAttrByColumn col)
    mvcgen [copyColumns, ih, hglyph, hdbcs, hattr]
    · exact fun hbuffer => hnoted.setBuffer hbuffer _
    · exact hnoted.setBuffer ‹_› _

@[spec]
theorem newline_spec (h : Sound size state) : Ensures state.newline (Sound size) := by
  have hstart := h.inside.startOfLine
  mvcgen [newline]
  exact h.setBuffer ‹_› _

@[spec]
theorem breakLine_spec (h : Sound size state) (oldCursor : Point) (iOldRow rowsTotal colsTotal : Nat) (right : Int) :
    Ensures (state.breakLine oldCursor row iOldRow rowsTotal colsTotal right) (Sound size) := by
  mvcgen [breakLine, keepHardReturn]
  all_goals exact h.noteCursorIf _

@[spec]
theorem copyRow_spec (h : Sound size state) (oldBuffer : TextBuffer) (rowsTotal iOldRow : Nat) :
    Ensures (state.copyRow oldBuffer rowsTotal iOldRow) (Sound size) := by
  have hright (row : Row) colsTotal := reads (rightOf row colsTotal)
  have hattrs (row : Row) count col column newRow := reads (copyAttrs row count col column newRow)
  have hinside := h.inside
  mvcgen [copyRow, keepLineRendition, copyRestOfAttrs, hright, hattrs]
  · exact h.setBuffer ‹_› _
  all_goals exact (Sound.setRow ‹_› _ _).notePositions _

theorem copyRows_spec (h : Sound size state) (oldBuffer : TextBuffer) (rowsTotal : Nat) (rows : List Nat) :
    Ensures (state.copyRows oldBuffer rowsTotal rows) (Sound size) := by
  induction rows generalizing state with
  | nil => mvcgen [copyRows]
  | cons iOldRow rows ih =>
    mvcgen [copyRows, ih]
    exact id

@[spec]
theorem transferAttributes_spec (h : Inside size buffer) (oldBuffer : TextBuffer) (count iOldRow newRowY : Nat) :
    Ensures (transferAttributes oldBuffer count iOldRow newRowY buffer) (Inside size) := by
  have hattr (row : Row) attr newWidth := reads (row.transferAttributes attr newWidth)
  induction count generalizing iOldRow newRowY buffer with
  | zero => mvcgen [transferAttributes]
  | succ count ih =>
    mvcgen [transferAttributes, hattr, ih]
    exact ⟨h.size_eq, h.x, h.y⟩

theorem repeatMove_spec {move : TextBuffer → Outcome} (hmove : ∀ b, Inside size b → Keeps size (move b))
    (h : Inside size buffer) (count : Nat) : Keeps size (repeatMove move count buffer) := by
  induction count generalizing buffer with
  | zero => mvcgen [repeatMove]
  | succ count ih =>
    mvcgen [repeatMove, hmove, ih]
    exact id

@[spec]
theorem placeCursor_spec (h : Sound size state) (oldBuffer : TextBuffer) (oldLastChar : Point) :
    Ensures (state.placeCursor oldBuffer oldLastChar) (Sound size) := by
  have hlast (buffer : TextBuffer) viewport := reads (buffer.getLastNonSpaceCharacter viewport)
  have hlines (buffer) (h : Inside size buffer) :=
    repeatMove_spec (fun b h => @newlineCursor_spec size b h.startOfLine) h
  have hcolumns (buffer) (h : Inside size buffer) := repeatMove_spec (fun b => @incrementCursor_spec size b) h
  mvcgen [placeCursor, advanceCursor, hlast, hlines, hcolumns]
  · next position hposition =>
    obtain ⟨hx, hy⟩ := h.cursorPos position hposition
    refine h.setBuffer ?_ _
    exact ⟨h.inside.size_eq, hx, hy⟩
  · exact ⟨h.inside.size_eq, h.inside.x, h.inside.y⟩
  · exact h.setBuffer ‹_› _
  · exact id
  · exact h.setBuffer ‹_› _

end Reflowing

/-- Every run of `Reflow` that returns leaves all positions inside. -/
theorem TextBuffer.reflow_sound {newBuffer : TextBuffer} (h : Inside size newBuffer) (oldBuffer : TextBuffer)
    (lastCharacterViewport : Option Viewport) (positionInfo : Option PositionInformation) :
    Ensures (oldBuffer.reflow newBuffer lastCharacterViewport positionInfo) (Reflowing.Sound size) := by
  have hstart : Reflowing.Sound size { buffer := newBuffer, positionInfo } := ⟨h, by simp, by simp⟩
  have hrows rowsTotal rows := Reflowing.copyRows_spec hstart oldBuffer rowsTotal rows
  have hlast viewport := reads (oldBuffer.getLastNonSpaceCharacter viewport)
  mvcgen [reflow, hrows, hlast]
  · exact Reflowing.Sound.inside ‹_›
  · exact fun hbuffer => Reflowing.Sound.setBuffer ‹_› hbuffer _

/-- A line of eight characters that goes on in the next row is wrapped at four columns. -/
theorem TextBuffer.reflow_sound_narrower :
    let wrapped := { Row.make 8 {} with chars := [0x61, 0x62, 0x63, 0x64, 0x65, 0x66, 0x67, 0x68], wrapForced := true }
    let rest := { Row.make 8 {} with chars := [0x69, 0x6A, 0x20, 0x20, 0x20, 0x20, 0x20, 0x20] }
    let buffer := { make 8 2 {} with storage := [wrapped, rest], cursor.x := 2, cursor.y := 1 }
    let result := buffer.reflow (make 4 3 {}) none none
    Ensures result (Reflowing.Sound ⟨4, 3⟩) ∧
      result.toOption.map (fun r => r.buffer.storage.map Row.chars) =
        some [[0x61, 0x62, 0x63, 0x64], [0x65, 0x66, 0x67, 0x68], [0x69, 0x6A, 0x20, 0x20]] :=
  ⟨reflow_sound ⟨rfl, by decide, by decide⟩ _ _ _, by decide +kernel⟩

end Terminal.Buffer
