import Terminal.Buffer.OutputCells
import Terminal.Types.Viewport

/-!
# Printing text (`AdaptDispatch::_WriteToBuffer`)

The loop over a string, on a display that stands for the text buffer and the line feed. What only
tells others of new text is left out.
-/

namespace Terminal.Adapter

open Terminal.Parser (Wchar)
open Terminal.Buffer (TextAttribute RowEdit OutputCellIterator)
open Terminal.Types (Point Size Rect)
open Terminal.Til

structure TextDisplay (σ : Type) where
  size : σ → Size
  isDoubleWidthLine : Int → σ → Bool
  writeRow : Int → List RowEdit → σ → σ
  scrollRectHorizontally : Rect → Int → σ → σ
  lineFeed : Point → σ → σ × Point

structure Cursor where
  position : Point
  delayedAt : Option Point := none
deriving DecidableEq, Repr

structure PrintSettings where
  wrapAtEOL : Bool
  insertReplace : Bool
  attributes : TextAttribute

structure Printer (σ : Type) where
  screen : σ
  cursor : Cursor
  lineWidth : Int
  text : List Wchar

section

variable {σ : Type} (fullWidth : List Wchar → Bool) (display : TextDisplay σ) (settings : PrintSettings)

namespace TextDisplay

def getLineWidth (row : Int) (screen : σ) : Int :=
  if display.isDoubleWidthLine row screen then (display.size screen).width / 2 else (display.size screen).width

/-- `TextBuffer::WriteLine` up to a column before the end. -/
def writeLine (it : OutputCellIterator) (target : Point) (wrap : Option Bool) (limitRight : Int) (screen : σ) :
    σ × OutputCellIterator :=
  if (display.size screen).IsInBounds target then
    let (edits, it) := Buffer.cellEdits fullWidth it target.x.toNat wrap limitRight
    (display.writeRow target.y edits screen, it)
  else (screen, it)

end TextDisplay

def measure (it : OutputCellIterator) : Nat → OutputCellIterator
  | 0 => it
  | cells + 1 => if it.isValid then measure (it.advance fullWidth) cells else it

namespace Printer

def wrapDelayed (p : Printer σ) : Printer σ :=
  match p.cursor.delayedAt with
  | none => p
  | some delayedCursorPosition =>
    if settings.wrapAtEOL then
      if delayedCursorPosition = p.cursor.position then
        let (screen, position) := display.lineFeed p.cursor.position p.screen
        { p with screen, cursor := { position }, lineWidth := display.getLineWidth position.y screen }
      else { p with cursor.delayedAt := none }
    else p

/-- In insert mode the rest of the line moves to the right. -/
def makeSpace (it : OutputCellIterator) (p : Printer σ) : σ :=
  if settings.insertReplace then
    let position := p.cursor.position
    let cellCount := (measure fullWidth it p.lineWidth.toNat).getCellDistance it
    display.scrollRectHorizontally ⟨position.x, position.y, p.lineWidth, position.y + 1⟩ cellCount p.screen
  else p.screen

/-- The cursor behind the text up to column `x`, clamped into the line. -/
def clampCursor (x : Int) (p : Printer σ) : Cursor :=
  if x ≥ p.lineWidth then
    let position : Point := ⟨p.lineWidth - 1, p.cursor.position.y⟩
    { position, delayedAt := if settings.wrapAtEOL then some position else none }
  else { position := ⟨x, p.cursor.position.y⟩ }

def moveOn (screen : σ) (inputDistance cellCount : Int) (p : Printer σ) : Printer σ :=
  if inputDistance = 0 then
    -- Without wrapping the text has to move on, or the loop would never end.
    { p with screen, cursor := p.clampCursor settings p.lineWidth
             text := if settings.wrapAtEOL then p.text else p.text.drop 1 }
  else
    { p with
      screen
      cursor := p.clampCursor settings (p.cursor.position.x + cellCount)
      text := p.text.drop inputDistance.toNat }

def printLine (p : Printer σ) : Printer σ :=
  let it := OutputCellIterator.ofText fullWidth p.text settings.attributes
  let written := display.writeLine fullWidth it p.cursor.position (some settings.wrapAtEOL) (p.lineWidth - 1)
    (p.makeSpace fullWidth display settings it)
  p.moveOn settings written.1 (written.2.getInputDistance it) (written.2.getCellDistance it)

def step (p : Printer σ) : Printer σ :=
  if p.text = [] then p else (p.wrapDelayed display settings).printLine fullWidth display settings

def start (string : List Wchar) (cursor : Cursor) (screen : σ) : Printer σ :=
  { screen, cursor, lineWidth := display.getLineWidth cursor.position.y screen, text := string }

end Printer

def writeToBuffer (rounds : Nat) (string : List Wchar) (cursor : Cursor) (screen : σ) : Option (σ × Cursor) :=
  let p := (Printer.step fullWidth display settings)^[rounds] (Printer.start display string cursor screen)
  if p.text = [] then some (p.screen, p.cursor) else none

/-! ## One round -/

namespace Printer

variable {fullWidth display settings} {p : Printer σ} {column limit : Nat}

theorem clampCursor_x (x : Int) : (p.clampCursor settings x).position.x = min x (p.lineWidth - 1) := by
  unfold clampCursor
  split_ifs <;> simp only <;> omega

@[simp] theorem clampCursor_y (x : Int) : (p.clampCursor settings x).position.y = p.cursor.position.y := by
  unfold clampCursor
  split_ifs <;> rfl

@[simp] theorem lineWidth_moveOn (screen : σ) (inputDistance cellCount : Int) :
    (p.moveOn settings screen inputDistance cellCount).lineWidth = p.lineWidth := by
  unfold moveOn
  split_ifs <;> rfl

theorem cursor_moveOn (screen : σ) (units : Nat) (cellCount : Int) : (p.moveOn settings screen units cellCount).cursor =
      p.clampCursor settings (if units = 0 then p.lineWidth else p.cursor.position.x + cellCount) := by
  by_cases hunits : units = 0 <;> simp [moveOn, hunits]

@[simp] theorem screen_moveOn (screen : σ) (inputDistance cellCount : Int) :
    (p.moveOn settings screen inputDistance cellCount).screen = screen := by
  unfold moveOn
  split_ifs <;> rfl

theorem text_moveOn (screen : σ) (units : Nat) (cellCount : Int) : (p.moveOn settings screen units cellCount).text =
      p.text.drop (if units = 0 ∧ settings.wrapAtEOL = false then 1 else units) := by
  by_cases hunits : units = 0 <;> cases hwrap : settings.wrapAtEOL <;> simp [moveOn, hunits, hwrap]

theorem printLine_inBounds (hx : p.cursor.position.x = column) (hlimit : p.lineWidth = limit)
    (hin : (display.size (p.makeSpace fullWidth display settings
      (.ofText fullWidth p.text settings.attributes))).IsInBounds p.cursor.position) :
    p.printLine fullWidth display settings = p.moveOn settings
        (display.writeRow p.cursor.position.y
          (Buffer.textEdits fullWidth settings.attributes (some settings.wrapAtEOL) limit column (codePoints p.text))
          (p.makeSpace fullWidth display settings (.ofText fullWidth p.text settings.attributes)))
        (Buffer.fitting fullWidth (limit - column) (codePoints p.text)).flatten.length
        (Buffer.textWidth fullWidth (Buffer.fitting fullWidth (limit - column) (codePoints p.text))) := by
  obtain ⟨view, h⟩ := Buffer.cellEdits_ofText fullWidth p.text settings.attributes column
    (some settings.wrapAtEOL) limit
  have hcolumn : p.cursor.position.x.toNat = column := by omega
  simp only [printLine, TextDisplay.writeLine, if_pos hin, hlimit, hcolumn, h]
  simp [OutputCellIterator.getInputDistance, OutputCellIterator.getCellDistance, OutputCellIterator.ofText]

theorem printLine_outOfBounds (hin : ¬ (display.size (p.makeSpace fullWidth display settings
      (.ofText fullWidth p.text settings.attributes))).IsInBounds p.cursor.position) :
    p.printLine fullWidth display settings =
      p.moveOn settings (p.makeSpace fullWidth display settings (.ofText fullWidth p.text settings.attributes))
        0 0 := by
  simp [printLine, TextDisplay.writeLine, if_neg hin, OutputCellIterator.getInputDistance,
    OutputCellIterator.getCellDistance]

end Printer

end

end Terminal.Adapter
