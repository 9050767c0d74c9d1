import Terminal.Buffer.TextBuffer

/-!
# `TextBuffer::Reflow`

The rows of an old buffer are printed into a new one of another width, cell by cell. An exception
ends the function with an error, and the caller drops the new buffer.
-/

namespace Terminal.Buffer

structure PositionInformation where
  mutableViewportTop : Nat
  visibleViewportTop : Nat
deriving DecidableEq, Repr

structure Reflowing where
  buffer : TextBuffer
  cursorPos : Option Point := none
  positionInfo : Option PositionInformation := none
  foundOldMutable : Bool := false
  foundOldVisible : Bool := false
  succeeded : Bool := true
deriving DecidableEq, Repr

namespace Reflowing

open TextBuffer

/-- The end of the text, or of the row if it wrapped. -/
def rightOf (row : Row) (colsTotal : Nat) : Except Fault Int :=
  if row.wrapForced then return if row.doubleBytePadded then colsTotal - 1 else colsTotal
  else row.measureRight

def keepLineRendition (row : Row) (state : Reflowing) : Except Fault Reflowing :=
  if state.buffer.cursor.x = 0 then do
    let buffer ← state.buffer.modifyRow state.buffer.cursor.y fun newRow =>
      { newRow with lineRendition := row.lineRendition }
    return { state with buffer := buffer }
  else return state

def noteCursor (oldCursor position : Point) (state : Reflowing) : Reflowing :=
  if position = oldCursor then { state with cursorPos := some state.buffer.cursor } else state

def copyColumns (oldCursor : Point) (row : Row) (iOldRow : Nat) : Nat → Nat → Reflowing → Except Fault (Nat × Reflowing)
  | 0, col, state => return (col, state)
  | count + 1, col, state => do
    let state := state.noteCursor oldCursor ⟨col, iOldRow⟩
    let glyph ← row.glyphAt col
    let dbcsAttr ← row.dbcsAttrAt col
    let textAttr ← row.getAttrByColumn col
    let (success, buffer) ← state.buffer.insertCharacter glyph dbcsAttr textAttr
    let state := { state with buffer := buffer }
    if success then copyColumns oldCursor row iOldRow count (col + 1) state
    else return (col, { state with succeeded := false })

def copyAttr (row : Row) (copyAttrCol newAttrColumn : Nat) (newRow : Row) : Except Fault Row :=
  match row.getAttrByColumn copyAttrCol >>= fun textAttr => newRow.setAttrToEnd newAttrColumn textAttr with
  | .ok newRow => return newRow
  | .error .exception => return newRow
  | .error .undefined => .error .undefined

def copyAttrs (row : Row) : Nat → Nat → Nat → Row → Except Fault Row
  | 0, _, _, newRow => return newRow
  | count + 1, copyAttrCol, newAttrColumn, newRow => do
    let newRow ← copyAttr row copyAttrCol newAttrColumn newRow
    copyAttrs row count (copyAttrCol + 1) (newAttrColumn + 1) newRow

def copyRestOfAttrs (row : Row) (iOldCol colsTotal : Nat) (state : Reflowing) : Except Fault Reflowing := do
  let position := state.buffer.cursor
  let newRow ← state.buffer.getRowByOffset position.y
  let newWidth ← state.buffer.getLineWidth position.y
  let newRow ← copyAttrs row (min (colsTotal - iOldCol) (newWidth - position.x)) iOldCol position.x newRow
  return { state with buffer := state.buffer.setRow position.y newRow }

def notePositions (iOldRow : Nat) (state : Reflowing) : Reflowing :=
  match state.positionInfo with
  | none => state
  | some info =>
    let y := state.buffer.cursor.y
    let mutableFound := !state.foundOldMutable && decide (iOldRow ≥ info.mutableViewportTop)
    let visibleFound := !state.foundOldVisible && decide (iOldRow ≥ info.visibleViewportTop)
    { state with
      positionInfo := some
        { mutableViewportTop := if mutableFound then y else info.mutableViewportTop
          visibleViewportTop := if visibleFound then y else info.visibleViewportTop }
      foundOldMutable := state.foundOldMutable || mutableFound
      foundOldVisible := state.foundOldVisible || visibleFound }

def newline (state : Reflowing) : Except Fault Reflowing := do
  let (success, buffer) ← state.buffer.newlineCursor
  return { state with buffer := buffer, succeeded := state.succeeded && success }

/-- On the final row a line that just filled a new row keeps its hard return. -/
def keepHardReturn (state : Reflowing) : Except Fault Reflowing :=
  let position := state.buffer.cursor
  if position.x = 0 ∧ position.y > 0 then do
    let above ← state.buffer.getRowByOffset (position.y - 1)
    if above.wrapForced then state.newline else return state
  else return state

def breakLine (oldCursor : Point) (row : Row) (iOldRow rowsTotal colsTotal : Nat) (right : Int) (state : Reflowing) :
    Except Fault Reflowing :=
  if state.succeeded ∧ right < colsTotal ∧ ¬ row.wrapForced then
    let state :=
      if state.cursorPos.isNone ∧ right = oldCursor.x ∧ iOldRow = oldCursor.y then
        { state with cursorPos := some state.buffer.cursor }
      else state
    if iOldRow + 1 < rowsTotal then state.newline else state.keepHardReturn
  else return state

def copyRow (oldBuffer : TextBuffer) (rowsTotal iOldRow : Nat) (state : Reflowing) : Except Fault Reflowing := do
  let row ← oldBuffer.getRowByOffset iOldRow
  let colsTotal ← oldBuffer.getLineWidth iOldRow
  let right ← rightOf row colsTotal
  let state ← state.keepLineRendition row
  let (iOldCol, state) ← copyColumns oldBuffer.cursor row iOldRow right.toNat 0 state
  let state ← state.copyRestOfAttrs row iOldCol colsTotal
  (state.notePositions iOldRow).breakLine oldBuffer.cursor row iOldRow rowsTotal colsTotal right

def copyRows (oldBuffer : TextBuffer) (rowsTotal : Nat) : List Nat → Reflowing → Except Fault Reflowing
  | [], state => return state
  | iOldRow :: rest, state => do
    let state ← copyRow oldBuffer rowsTotal iOldRow state
    copyRows oldBuffer rowsTotal rest state

def transferAttributes (oldBuffer : TextBuffer) : Nat → Nat → Nat → TextBuffer → Except Fault TextBuffer
  | 0, _, _, buffer => return buffer
  | count + 1, iOldRow, newRowY, buffer => do
    let row ← oldBuffer.getRowByOffset iOldRow
    let newRow ← buffer.getRowByOffset newRowY
    let newWidth ← buffer.getLineWidth newRowY
    let newRow ← newRow.transferAttributes row.attr newWidth
    transferAttributes oldBuffer count (iOldRow + 1) (newRowY + 1) (buffer.setRow newRowY newRow)

def repeatMove (move : TextBuffer → Outcome) : Nat → TextBuffer → Outcome
  | 0, buffer => return (true, buffer)
  | count + 1, buffer => do
    let (success, buffer) ← move buffer
    if success then repeatMove move count buffer else return (false, buffer)

/-- Moves the cursor as far behind the text as the old one was. -/
def advanceCursor (oldBuffer : TextBuffer) (oldLastChar : Point) (buffer : TextBuffer) : Outcome := do
  let newLastChar ← buffer.getLastNonSpaceCharacter none
  let newRow ← buffer.getRowByOffset newLastChar.y
  let oldRow ← oldBuffer.getRowByOffset oldLastChar.y
  let newlines : Int := oldBuffer.cursor.y - oldLastChar.y
  let increments : Int := oldBuffer.cursor.x - oldLastChar.x
  let newlines := if newRow.wrapForced || oldRow.wrapForced then max (newlines - 1) 0 else newlines
  let (success, buffer) ← repeatMove newlineCursor newlines.toNat buffer
  if success then repeatMove incrementCursor (increments - 1).toNat buffer else return (false, buffer)

def placeCursor (oldBuffer : TextBuffer) (oldLastChar : Point) (state : Reflowing) : Except Fault Reflowing :=
  if state.succeeded then do
    let buffer := state.buffer.copyHyperlinkMaps oldBuffer
    match state.cursorPos with
    | some position => return { state with buffer := { buffer with cursor := position } }
    | none => do
      let (success, buffer) ← advanceCursor oldBuffer oldLastChar buffer
      return { state with buffer := buffer, succeeded := success }
  else return state

end Reflowing

def TextBuffer.reflow (oldBuffer newBuffer : TextBuffer) (lastCharacterViewport : Option TextBuffer.Viewport)
    (positionInfo : Option PositionInformation) : Except Fault Reflowing := do
  let oldLastChar ← oldBuffer.getLastNonSpaceCharacter lastCharacterViewport
  let rowsTotal := oldLastChar.y + 1
  let state ← Reflowing.copyRows oldBuffer rowsTotal (List.range rowsTotal)
    { buffer := newBuffer, positionInfo := positionInfo }
  let newRowY := state.buffer.cursor.y + 1
  let buffer ← Reflowing.transferAttributes oldBuffer
    (min (oldBuffer.size.height - rowsTotal) (state.buffer.size.height - newRowY)) rowsTotal newRowY state.buffer
  { state with buffer := buffer }.placeCursor oldBuffer oldLastChar

end Terminal.Buffer
