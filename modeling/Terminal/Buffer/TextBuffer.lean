import Terminal.Buffer.Row

/-!
# The text buffer (`textBuffer.cpp`)

A ring of rows with a cursor, the attributes for new text and the hyperlinks. What only tells the
renderer to draw is left out, as is the look of the cursor.
-/

namespace Terminal.Buffer

open Terminal.Parser (Wchar)

structure Point where
  x : Nat := 0
  y : Nat := 0
deriving DecidableEq, Repr

structure Size where
  width : Nat
  height : Nat
deriving DecidableEq, Repr

structure TextBuffer where
  storage : List Row
  size : Size
  firstRow : Nat := 0
  cursor : Point := {}
  currentAttributes : TextAttribute := {}
  hyperlinkMap : List (BitVec 16 × List Wchar) := []
  hyperlinkCustomIdMap : List (List Wchar × BitVec 16) := []
  currentHyperlinkId : BitVec 16 := 1
deriving DecidableEq, Repr

def TextAttribute.setStandardErase (attr : TextAttribute) : TextAttribute :=
  { attr with attrs := CharacterAttributes.normal, hyperlinkId := 0 }

namespace TextBuffer

/-- The constructor. The allocator narrows the size to 16 bits. -/
def make (width height : BitVec 16) (defaultAttributes : TextAttribute) : TextBuffer :=
  let width := if width = 0 then 1 else width
  let height := if height = 0 then 1 else height
  { storage := List.replicate height.toNat (Row.make width defaultAttributes)
    size := { width := width.toNat, height := height.toNat }
    currentAttributes := defaultAttributes }

/-! ## Rows -/

def rowIndex (index : Nat) (buffer : TextBuffer) : Nat := (buffer.firstRow + index) % buffer.storage.length

def getRowByOffset (index : Nat) (buffer : TextBuffer) : Except Fault Row :=
  orFault .undefined buffer.storage[buffer.rowIndex index]?

def setRow (index : Nat) (row : Row) (buffer : TextBuffer) : TextBuffer :=
  { buffer with storage := buffer.storage.set (buffer.rowIndex index) row }

def modifyRow (index : Nat) (f : Row → Row) (buffer : TextBuffer) : Except Fault TextBuffer := do
  let row ← buffer.getRowByOffset index
  return buffer.setRow index (f row)

def getLineWidth (index : Nat) (buffer : TextBuffer) : Except Fault Nat := do
  let row ← buffer.getRowByOffset index
  return if row.lineRendition ≠ .singleWidth then buffer.size.width / 2 else buffer.size.width

/-! ## Hyperlinks -/

def removeHyperlinkFromMap (id : BitVec 16) (buffer : TextBuffer) : TextBuffer :=
  { buffer with
    hyperlinkMap := buffer.hyperlinkMap.filter fun entry => entry.1 != id
    hyperlinkCustomIdMap := buffer.hyperlinkCustomIdMap.eraseP fun entry => entry.2 == id }

def copyHyperlinkMaps (buffer other : TextBuffer) : TextBuffer :=
  { buffer with
    hyperlinkMap := other.hyperlinkMap
    hyperlinkCustomIdMap := other.hyperlinkCustomIdMap
    currentHyperlinkId := other.currentHyperlinkId }

def obsoleteRefs (buffer : TextBuffer) : List Nat → List (BitVec 16) → Except Fault (List (BitVec 16))
  | [], refs => return refs
  | index :: rest, refs => do
    let row ← buffer.getRowByOffset index
    let refs := refs.filter fun id => !row.getHyperlinks.contains id
    if refs = [] then return [] else obsoleteRefs buffer rest refs

def pruneHyperlinks (buffer : TextBuffer) : Except Fault TextBuffer := do
  let row ← buffer.getRowByOffset 0
  if row.getHyperlinks = [] then return buffer
  else do
    let refs ← buffer.obsoleteRefs (List.range' 1 (buffer.storage.length - 1)) row.getHyperlinks.dedup
    return refs.foldl (fun buffer id => buffer.removeHyperlinkFromMap id) buffer

/-! ## The ring -/

def incrementCircularBuffer (inVtMode : Bool) (buffer : TextBuffer) : Except Fault TextBuffer := do
  let buffer ← buffer.pruneHyperlinks
  let attributes := buffer.currentAttributes
  let fillAttributes := if inVtMode then attributes.setStandardErase else attributes
  let buffer ← buffer.modifyRow 0 (Row.reset fillAttributes)
  let firstRow := buffer.firstRow + 1
  return { buffer with firstRow := if firstRow ≥ buffer.size.height then 0 else firstRow }

/-! ## Moving the cursor -/

abbrev Outcome := Except Fault (Bool × TextBuffer)

def newlineCursor (buffer : TextBuffer) : Outcome :=
  let y := buffer.cursor.y + 1
  if y > buffer.size.height - 1 then do
    let buffer ← { buffer with cursor := ⟨0, buffer.size.height - 1⟩ }.incrementCircularBuffer false
    return (true, buffer)
  else return (true, { buffer with cursor := ⟨0, y⟩ })

def setWrapOnCurrentRow (buffer : TextBuffer) : Except Fault TextBuffer :=
  buffer.modifyRow buffer.cursor.y fun row => { row with wrapForced := true }

def incrementCursor (buffer : TextBuffer) : Outcome := do
  let width ← buffer.getLineWidth buffer.cursor.y
  let buffer := { buffer with cursor.x := buffer.cursor.x + 1 }
  if buffer.cursor.x > width - 1 then do
    let buffer ← buffer.setWrapOnCurrentRow
    buffer.newlineCursor
  else return (true, buffer)

def getPreviousFromCursor (buffer : TextBuffer) : Except Fault Point :=
  let position := buffer.cursor
  if position.x > 0 then return { position with x := position.x - 1 }
  else if position.y > 0 then do
    let width ← buffer.getLineWidth (position.y - 1)
    return ⟨width - 1, position.y - 1⟩
  else return position

/-! ## Inserting -/

def tryRow (index : Nat) (result : Except Fault Row) (buffer : TextBuffer) : Outcome :=
  match result with
  | .ok row => return (true, buffer.setRow index row)
  | .error .exception => return (false, buffer)
  | .error .undefined => .error .undefined

def assertValidDoubleByteSequence (dbcsAttribute : DbcsAttribute) (buffer : TextBuffer) : Outcome := do
  let previous ← buffer.getPreviousFromCursor
  let prevRow ← buffer.getRowByOffset previous.y
  let prevDbcsAttr ← prevRow.dbcsAttrAt previous.x
  match prevDbcsAttr, dbcsAttribute with
  | .single, .trailing => return (false, buffer)
  | .leading, .single => buffer.tryRow previous.y (prevRow.clearCell previous.x)
  | .leading, .leading => buffer.tryRow previous.y (prevRow.clearCell previous.x)
  | .trailing, .trailing => return (false, buffer)
  | _, _ => return (true, buffer)

def prepareForDoubleByteSequence (dbcsAttribute : DbcsAttribute) (buffer : TextBuffer) : Outcome := do
  -- A sequence that is not valid is only logged.
  let (_, buffer) ← buffer.assertValidDoubleByteSequence dbcsAttribute
  if dbcsAttribute = .leading then do
    let width ← buffer.getLineWidth buffer.cursor.y
    if buffer.cursor.x + 1 = width then do
      let buffer ← buffer.modifyRow buffer.cursor.y fun row => { row with doubleBytePadded := true }
      buffer.incrementCursor
    else return (true, buffer)
  else return (true, buffer)

def replaceAtCursor (chars : List Wchar) (dbcsAttribute : DbcsAttribute) (column : Int)
    (row : Row) : Except Fault Row :=
  match dbcsAttribute with
  | .leading => row.replaceCharacters column 2 chars
  | .trailing => row.replaceCharacters (column - 1) 2 chars
  | .single => row.replaceCharacters column 1 chars

def storeColor (attr : TextAttribute) (buffer : TextBuffer) : Outcome := do
  let row ← buffer.getRowByOffset buffer.cursor.y
  let row ← row.setAttrToEnd buffer.cursor.x attr
  (buffer.setRow buffer.cursor.y row).incrementCursor

def insertCharacter (chars : List Wchar) (dbcsAttribute : DbcsAttribute) (attr : TextAttribute) (buffer : TextBuffer) :
    Outcome := do
  let (success, buffer) ← buffer.prepareForDoubleByteSequence dbcsAttribute
  if success then do
    let row ← buffer.getRowByOffset buffer.cursor.y
    let (success, buffer) ← buffer.tryRow buffer.cursor.y (replaceAtCursor chars dbcsAttribute buffer.cursor.x row)
    if success then buffer.storeColor attr else return (false, buffer)
  else return (false, buffer)

/-! ## The end of the text -/

structure Viewport where
  top : Nat
  bottomInclusive : Nat
deriving DecidableEq, Repr

def backUpToText (buffer : TextBuffer) (top : Nat) : Nat → Int → Except Fault (Nat × Int)
  | 0, right => return (0, right)
  | y + 1, right =>
    if right - 1 < 0 ∧ y + 1 > top then do
      let row ← buffer.getRowByOffset y
      let right ← row.measureRight
      backUpToText buffer top y right
    else return (y + 1, right)

def getLastNonSpaceCharacter (viewOptional : Option Viewport) (buffer : TextBuffer) : Except Fault Point := do
  let viewport := viewOptional.getD { top := 0, bottomInclusive := buffer.size.height - 1 }
  let row ← buffer.getRowByOffset viewport.bottomInclusive
  let right ← row.measureRight
  let (y, right) ← buffer.backUpToText viewport.top viewport.bottomInclusive right
  return ⟨(right - 1).toNat, y⟩

end TextBuffer

end Terminal.Buffer
