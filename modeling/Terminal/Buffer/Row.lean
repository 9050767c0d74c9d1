import Terminal.Buffer.TextAttribute
import Terminal.Lib.Span
import Terminal.Parser.Chars
import Terminal.Til.RleOps

/-!
# One row of the text buffer (`Row.cpp`)

The text is one array of code units. `charOffsets` has the offset of the text of every column,
with a flag in the highest bit for trailing columns of a wide glyph, and one entry for the end.

Memory just allocated is zero. Of `_charsBuffer` only whether there is one is kept, since it is
overwritten when it is used again.
-/

namespace Terminal.Buffer

open Terminal.Parser (Wchar)
open Til (Rle)

/-! ## What can go wrong -/

/-- A C++ exception, or an access outside of an array. -/
inductive Fault
  | exception
  | undefined
deriving DecidableEq, Repr

def orFault {α : Type} (fault : Fault) : Option α → Except Fault α
  | some a => .ok a
  | none => .error fault

/-- `gsl::narrow` to 16 bits. -/
def narrow16 (n : Nat) : Except Fault Nat := if n < 2 ^ 16 then .ok n else .error .exception

@[simp] theorem orFault_some {α : Type} (fault : Fault) (a : α) : orFault fault (some a) = .ok a := rfl

@[simp] theorem ok_bind {α β : Type} (a : α) (f : α → Except Fault β) : (Except.ok a >>= f) = f a := rfl

@[simp] theorem error_bind {α β : Type} (fault : Fault) (f : α → Except Fault β) :
    (Except.error fault >>= f) = .error fault := rfl

/-! ## The row -/

inductive LineRendition
  | singleWidth
  | doubleWidth
  | doubleHeightTop
  | doubleHeightBottom
deriving DecidableEq, Repr

/-- Which half of a wide glyph is in a cell. -/
inductive DbcsAttribute
  | single
  | leading
  | trailing
deriving DecidableEq, Repr

def unicodeSpace : Wchar := 0x20

/-- Set in the entry of a column that continues a glyph. -/
def charOffsetsTrailer : BitVec 16 := 0x8000
def charOffsetsMask : BitVec 16 := 0x7fff

def isTrailer (offset : BitVec 16) : Bool := offset &&& charOffsetsTrailer != 0

/-- `charOffsets` has where the glyph of each column starts in `chars`, and where the text ends. -/
structure Row where
  hasBuffer : Bool := false
  chars : List Wchar := []
  charOffsets : List (BitVec 16) := []
  attr : Rle TextAttribute := {}
  columnCount : Nat := 0
  lineRendition : LineRendition := .singleWidth
  wrapForced : Bool := false
  doubleBytePadded : Bool := false
deriving DecidableEq, Repr

def iota (count : Nat) (val : BitVec 16) : List (BitVec 16) := (List.range count).map fun i => val + BitVec.ofNat 16 i

def spaces (count : Nat) : List Wchar := List.replicate count unicodeSpace

def clampedUint16 (v : Int) : Nat := (max 0 (min 65535 v)).toNat

namespace Row

def clampedColumn (v : Int) (row : Row) : Nat := (max 0 (min (row.columnCount - 1 : Int) v)).toNat

def clampedColumnInclusive (v : Int) (row : Row) : Nat := (max 0 (min (row.columnCount : Int) v)).toNat

def offsetAt (col : Nat) (row : Row) : Except Fault (BitVec 16) := orFault .undefined row.charOffsets[col]?

def charSize (row : Row) : Except Fault (BitVec 16) := row.offsetAt row.columnCount

def uncheckedCharOffset (col : Nat) (row : Row) : Except Fault (BitVec 16) := do
  let offset ← row.offsetAt col
  return offset &&& charOffsetsMask

def uncheckedIsTrailer (col : Nat) (row : Row) : Except Fault Bool := do
  let offset ← row.offsetAt col
  return isTrailer offset

/-! ## Making and clearing rows -/

def init (row : Row) : Row :=
  { row with
    chars := spaces row.columnCount
    charOffsets := iota row.charOffsets.length 0 }

def make (rowWidth : BitVec 16) (fillAttribute : TextAttribute) : Row :=
  init { hasBuffer := true
         charOffsets := List.replicate (rowWidth.toNat + 1) 0
         attr := Rle.ofLength rowWidth.toNat fillAttribute
         columnCount := rowWidth.toNat }

def reset (attr : TextAttribute) (row : Row) : Row :=
  init { row with
         attr := Rle.ofLength row.columnCount attr
         lineRendition := .singleWidth
         wrapForced := false
         doubleBytePadded := false }

/-! ## Glyph boundaries -/

/-- The column that the glyph starts in. -/
def backToLead (row : Row) : Nat → Except Fault Nat
  | 0 => .ok 0
  | col + 1 => do
    let trailer ← row.uncheckedIsTrailer (col + 1)
    if trailer then backToLead row col else return col + 1

/-- The next column that a glyph starts in. -/
def skipTrailers : List (BitVec 16) → Nat → Except Fault Nat
  | [], _ => .error .undefined
  | offset :: offsets, col => if isTrailer offset then skipTrailers offsets (col + 1) else .ok col

/-! ## Another width -/

/-- A glyph that the new width cuts is left out. -/
def extentToCopy (rowWidth : Nat) (row : Row) : Except Fault (Nat × BitVec 16) :=
  if row.hasBuffer then do
    let charsToCopy ← row.uncheckedCharOffset (min rowWidth row.columnCount)
    let colsToCopy ← row.backToLead (min rowWidth row.columnCount)
    return (colsToCopy, charsToCopy)
  else return (0, 0)

def resizeAttr (rowWidth : Nat) (fillAttribute : TextAttribute) (attr : Rle TextAttribute) :
    Except Fault (Rle TextAttribute) :=
  if attr.isEmpty then return Rle.ofLength rowWidth fillAttribute
  else orFault .undefined (Til.resizeTrailingExtent 16 rowWidth attr)

def resize (rowWidth : BitVec 16) (fillAttribute : TextAttribute) (row : Row) : Except Fault Row := do
  let (colsToCopy, charsToCopy) ← row.extentToCopy rowWidth.toNat
  let trailingWhitespace := rowWidth.toNat - colsToCopy
  let charsCapacity := (charsToCopy.toNat + trailingWhitespace) % 2 ^ 16
  let size := if charsCapacity > rowWidth.toNat then charsCapacity else rowWidth.toNat
  let text ← orFault .undefined (Span.read 0 charsToCopy.toNat row.chars)
  let chars ← orFault .undefined (Span.write 0 (text ++ spaces trailingWhitespace) (List.replicate size 0))
  let offsets ← orFault .undefined (Span.read 0 colsToCopy row.charOffsets)
  let charOffsets ← orFault .undefined
    (Span.write 0 (offsets ++ iota (trailingWhitespace + 1) charsToCopy) (List.replicate (rowWidth.toNat + 1) 0))
  let attr ← resizeAttr rowWidth.toNat fillAttribute row.attr
  return { row with
           hasBuffer := true
           chars := chars
           charOffsets := charOffsets
           attr := attr
           columnCount := rowWidth.toNat }

def transferAttributes (attr : Rle TextAttribute) (newWidth : Nat) (row : Row) : Except Fault Row := do
  let attr ← orFault .undefined (Til.resizeTrailingExtent 16 newWidth attr)
  return { row with attr := attr }

/-! ## Writing -/

/-- The text behind the range moves, maybe to a larger array. -/
def moveChars (chExtBeg chExtEnd chExtEndNew currentLength newLength : Nat) (chars : List Wchar) :
    Except Fault (List Wchar) :=
  if newLength ≤ chars.length then do
    -- `std::copy_n` of trivial values is a `memmove`.
    let rest ← orFault .undefined (Span.read chExtEnd currentLength chars)
    orFault .undefined (Span.write chExtEndNew rest chars)
  else do
    let minCapacity := min 65535 (chars.length + chars.length / 2)
    let newCapacity ← narrow16 (max newLength minCapacity)
    let start ← orFault .undefined (Span.read 0 chExtBeg chars)
    let heap ← orFault .undefined (Span.write 0 start (List.replicate newCapacity 0))
    let rest ← orFault .undefined (Span.read chExtEnd currentLength chars)
    orFault .undefined (Span.write chExtEndNew rest heap)

/-- The entries behind the range follow their text. -/
def resizeChars (colExtEnd chExtBeg chExtEnd chExtEndNew : Nat) (row : Row) : Except Fault Row := do
  let diff : Int := chExtEndNew - chExtEnd
  let currentLength ← row.charSize
  let newLength := (currentLength.toNat + diff).toNat
  let chars ← moveChars chExtBeg chExtEnd chExtEndNew currentLength.toNat newLength row.chars
  return { row with
           chars := chars
           charOffsets := row.charOffsets.take colExtEnd ++ (row.charOffsets.drop colExtEnd).map
             (· + BitVec.ofInt 16 diff) }

def resizeCharsIf (colExtEnd chExtBeg chExtEnd chExtEndNew : Nat) (row : Row) : Except Fault Row :=
  if chExtEndNew ≠ chExtEnd then row.resizeChars colExtEnd chExtBeg chExtEnd chExtEndNew else return row

/-- What is left of glyphs that the range cuts becomes spaces. -/
def replaceRange (colBeg colEnd : Nat) (chars : List Wchar) (row : Row) : Except Fault Row := do
  let chExtBeg ← row.uncheckedCharOffset colBeg
  let colExtBeg ← row.backToLead colBeg
  let colExtEnd ← skipTrailers (row.charOffsets.drop colEnd) colEnd
  let chExtEnd ← row.uncheckedCharOffset colExtEnd
  let leadingSpaces := colBeg - colExtBeg
  let trailingSpaces := colExtEnd - colEnd
  let chExtEndNew := chars.length + leadingSpaces + trailingSpaces + chExtBeg.toNat
  let row ← row.resizeCharsIf colExtEnd chExtBeg.toNat chExtEnd.toNat chExtEndNew
  let text ← orFault .undefined
    (Span.write chExtBeg.toNat (spaces leadingSpaces ++ (chars ++ spaces trailingSpaces)) row.chars)
  let chPos := chExtBeg + BitVec.ofNat 16 leadingSpaces
  let offsets ← orFault .undefined
    (Span.write colExtBeg (iota leadingSpaces chExtBeg ++
        (chPos :: List.replicate (colEnd - (colBeg + 1)) (chPos ||| charOffsetsTrailer) ++
          iota trailingSpaces (chPos + BitVec.ofNat 16 chars.length)))
      row.charOffsets)
  return { row with chars := text, charOffsets := offsets }

/-- A range that is empty or leaves the row is ignored. -/
def replaceCharacters (columnBegin width : Int) (chars : List Wchar) (row : Row) : Except Fault Row :=
  let colBeg := clampedUint16 columnBegin
  let colEnd := clampedUint16 (columnBegin + width)
  if colBeg ≥ colEnd ∨ colEnd > row.columnCount ∨ chars = [] then return row
  else row.replaceRange colBeg colEnd chars

def clearCell (column : Int) (row : Row) : Except Fault Row := row.replaceCharacters column 1 [unicodeSpace]

def setAttrToEnd (columnBegin : Int) (attr : TextAttribute) (row : Row) : Except Fault Row := do
  let attr ← orFault .undefined
    (Til.replaceValue 16 (row.clampedColumnInclusive columnBegin) row.attr.totalLength attr row.attr)
  return { row with attr := attr }

/-! ## Reading -/

def getText (row : Row) : Except Fault (List Wchar) := do
  let size ← row.charSize
  orFault .undefined (Span.read 0 size.toNat row.chars)

/-- The columns without the spaces at the end. -/
def measureRight (row : Row) : Except Fault Int := do
  let text ← row.getText
  return row.columnCount - (text.reverse.takeWhile (· == unicodeSpace)).length

def glyphAt (column : Int) (row : Row) : Except Fault (List Wchar) := do
  let col := row.clampedColumn column
  let first ← row.uncheckedCharOffset col
  let col ← skipTrailers (row.charOffsets.drop (col + 1)) (col + 1)
  let last ← row.uncheckedCharOffset col
  orFault .undefined (Span.read first.toNat last.toNat row.chars)

def dbcsAttrAt (column : Int) (row : Row) : Except Fault DbcsAttribute := do
  let col := row.clampedColumn column
  let trailing ← row.uncheckedIsTrailer col
  if trailing then return .trailing
  else do
    let leading ← row.uncheckedIsTrailer (col + 1)
    return if leading then .leading else .single

def getAttrByColumn (column : Int) (row : Row) : Except Fault TextAttribute :=
  orFault .exception (Til.valueAt 16 (clampedUint16 column) row.attr)

def getHyperlinks (row : Row) : List (BitVec 16) :=
  (row.attr.runs.filter fun run => run.value.hyperlinkId != 0).map fun run => run.value.hyperlinkId

end Row

end Terminal.Buffer
