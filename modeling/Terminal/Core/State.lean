import Terminal.Core.Words

/-!
# The state of the terminal (`Terminal.cpp`, `TerminalApi.cpp`)

The two buffers, the viewport that output writes to, the scroll position, the selection and the
marks. What only notifies the control or the renderer is left out.
-/

namespace Terminal.Core

open Terminal.Types

structure SelectionAnchors where
  start : Point := ⟨0, 0⟩
  endPos : Point := ⟨0, 0⟩
  pivot : Point := ⟨0, 0⟩
deriving DecidableEq, Repr

inductive SelectionInteractionMode where
  | none
  | mouse
  | keyboard
  | mark
deriving DecidableEq, Repr

inductive SelectionDirection where
  | left
  | right
  | up
  | down
deriving DecidableEq, Repr

inductive SelectionExpansion where
  | char
  | word
  | line
  | viewport
  | buffer
deriving DecidableEq, Repr

structure SelectionEndpoint where
  start : Bool := false
  endPos : Bool := false
deriving DecidableEq, Repr

inductive MarkCategory where
  | prompt
  | error
  | warning
  | success
  | info
deriving DecidableEq, Repr

structure ScrollMark where
  start : Point := ⟨0, 0⟩
  /-- exclusive -/
  endPos : Point := ⟨0, 0⟩
  commandEnd : Option Point := none
  outputEnd : Option Point := none
  category : MarkCategory := .info
deriving DecidableEq, Repr

inductive PromptState where
  | none
  | prompt
  | command
  | output
deriving DecidableEq, Repr

structure TerminalCore where
  mainBuffer : Screen
  altBuffer : Option Screen := none
  mutableViewport : Viewport
  scrollbackLines : Int := 0
  altBufferSize : Size := ⟨0, 0⟩
  deferredResize : Option Size := none
  scrollOffset : Int := 0
  selection : Option SelectionAnchors := none
  blockSelection : Bool := false
  multiClickSelectionMode : SelectionExpansion := .char
  selectionMode : SelectionInteractionMode := .none
  selectionEndpoint : SelectionEndpoint := {}
  anchorInactiveSelectionEndpoint : Bool := false
  scrollMarks : List ScrollMark := []
  currentPromptState : PromptState := .none

def shrtMax : Int := 32767

/-- `TextBuffer::TextBuffer` guards against empty buffers. -/
def bufferSizeFor (size : Size) : Size := ⟨max size.width 1, max size.height 1⟩

variable (position : Point) (viewportSize : Size) (t : TerminalCore)

namespace TerminalCore

def create (scrollbackLines : Int) : TerminalCore where
  mainBuffer := {
    size := bufferSizeFor
      ⟨viewportSize.width, Viewport.clampBetween (viewportSize.height + scrollbackLines) 1 shrtMax⟩
    text := .blank }
  mutableViewport := .fromDimensions ⟨0, 0⟩ viewportSize
  scrollbackLines := scrollbackLines

/-! ## Buffers and viewports -/

def inAltBuffer : Bool := t.altBuffer.isSome

def activeBuffer : Screen := t.altBuffer.getD t.mainBuffer

def modifyActiveBuffer (f : Screen → Screen) (t : TerminalCore) : TerminalCore :=
  match t.altBuffer with
  | some buffer => { t with altBuffer := some (f buffer) }
  | none => { t with mainBuffer := f t.mainBuffer }

/-- `_GetMutableViewport`: the main viewport may not be the window's. -/
def getMutableViewport : Viewport :=
  if t.inAltBuffer then .fromDimensions ⟨0, 0⟩ t.altBufferSize else t.mutableViewport

def viewStartIndex : Int := if t.inAltBuffer then 0 else t.mutableViewport.top

def viewEndIndex : Int :=
  if t.inAltBuffer then t.altBufferSize.height - 1 else t.mutableViewport.bottomInclusive

def visibleStartIndex : Int :=
  if t.inAltBuffer then t.viewStartIndex else max 0 (t.viewStartIndex - t.scrollOffset)

def visibleEndIndex : Int :=
  if t.inAltBuffer then t.viewEndIndex else max 0 (t.viewEndIndex - t.scrollOffset)

def getVisibleViewport : Viewport :=
  .fromDimensions ⟨0, t.visibleStartIndex⟩ (if t.inAltBuffer then t.altBufferSize else t.mutableViewport.dimensions)

def setViewportPosition : TerminalCore :=
  if t.inAltBuffer then t
  else { t with mutableViewport := .fromDimensions position t.getMutableViewport.dimensions }

def userScrollViewport (viewTop : Int) (t : TerminalCore) : TerminalCore :=
  if t.inAltBuffer then t
  else { t with scrollOffset := max 0 (t.viewStartIndex - max 0 viewTop) }

/-! ## Output -/

end TerminalCore

/-- The anchors without the first row, if something is left between them. -/
def SelectionAnchors.pushUp (s : SelectionAnchors) : Option SelectionAnchors :=
  if s.start.y > 0 then some { s with start := ⟨s.start.x, s.start.y - 1⟩, endPos := ⟨s.endPos.x, s.endPos.y - 1⟩ }
  else if s.endPos.y > 0 then some { s with start := ⟨0, s.start.y⟩, endPos := ⟨s.endPos.x, s.endPos.y - 1⟩ }
  else none

/-- The pivot is synced with the anchor that it was. -/
def SelectionAnchors.cycle (s : SelectionAnchors) : Option SelectionAnchors :=
  s.pushUp.map fun moved => { moved with pivot := if s.start = s.pivot then moved.start else moved.endPos }

def pointUp (rows : Int) (p : Point) : Point := { p with y := p.y - rows }

def ScrollMark.move (rows : Int) (mark : ScrollMark) : ScrollMark :=
  { mark with
    start := pointUp rows mark.start
    commandEnd := mark.commandEnd.map (pointUp rows)
    outputEnd := mark.outputEnd.map (pointUp rows) }

namespace TerminalCore

def cycleRow : TerminalCore :=
  { t.modifyActiveBuffer Screen.incrementCircularBuffer with selection := t.selection.bind SelectionAnchors.cycle }

def scrollAmount : Int :=
  max 0 (position.y - t.mutableViewport.bottomInclusive)

def newViewTop : Int := max 0 (position.y - (t.mutableViewport.height - 1))

def updatesViewport : Prop :=
  t.scrollAmount position > 0 ∧ t.newViewTop position ≠ t.mutableViewport.top

instance (position : Point) (t : TerminalCore) : Decidable (t.updatesViewport position) :=
  inferInstanceAs (Decidable (_ ∧ _))

def followedViewport : Viewport :=
  if t.updatesViewport position then .fromDimensions ⟨0, t.newViewTop position⟩ t.mutableViewport.dimensions
  else t.mutableViewport

def followedOffset (newRows : Int) (t : TerminalCore) : Int :=
  if t.updatesViewport position ∨ newRows ≠ 0 then
    let scrollToOutput := ¬t.selection.isSome ∧ t.scrollOffset = 0
    let scrollOffset := if scrollToOutput then 0 else t.scrollOffset + t.scrollAmount position + newRows
    Viewport.clampBetween scrollOffset 0 (t.activeBuffer.getSize.height - t.mutableViewport.height)
  else t.scrollOffset

def followCursor (newRows : Int) (t : TerminalCore) : TerminalCore :=
  if t.inAltBuffer then t
  else
    { t with
      mutableViewport := t.followedViewport position
      scrollOffset := t.followedOffset position newRows }

def moveMarks (rowsPushedOffTopOfBuffer : Int) (t : TerminalCore) : TerminalCore :=
  if rowsPushedOffTopOfBuffer ≠ 0 then
    { t with
      scrollMarks := (t.scrollMarks.map (ScrollMark.move rowsPushedOffTopOfBuffer)).filter fun m => 0 ≤ m.start.y }
  else t

def newRows (y : Int) (t : TerminalCore) : Int := max 0 (y - t.activeBuffer.getSize.height + 1)

def adjustCursorPosition (proposedPosition : Point) (t : TerminalCore) : TerminalCore :=
  let newRows := t.newRows proposedPosition.y
  let position := pointUp newRows proposedPosition
  let t := cycleRow^[newRows.toNat] t
  let t := t.modifyActiveBuffer fun buffer => { buffer with cursor := position }
  (t.followCursor position newRows).moveMarks newRows

def lineFeed (withReturn : Bool) (t : TerminalCore) : TerminalCore :=
  let cursorPos := t.activeBuffer.cursor
  t.adjustCursorPosition ⟨if withReturn then 0 else cursorPos.x, cursorPos.y + 1⟩

end TerminalCore

/-! ## Resizing -/

structure Reflowed where
  cursor : Point
  text : Text
  /-- `GetLastNonSpaceCharacter`, unless it throws -/
  lastNonSpaceCharacter : Option Point
  mutableViewportTop : Int
  visibleViewportTop : Int
  wasWrapForced : Int → Bool

namespace TerminalCore

def proposedTop (viewportSize : Size) (dx : Int) (r : Reflowed) : Int :=
  let newLastChar := r.lastNonSpaceCharacter.getD r.cursor
  let maxRow := max newLastChar.y r.cursor.y
  let proposedTopFromLastLine := maxRow - viewportSize.height + 1
  let proposedTopFromScrollback := r.mutableViewportTop
  let proposedTop := max proposedTopFromLastLine proposedTopFromScrollback
  let proposedViewFromTop := Viewport.fromDimensions ⟨0, proposedTopFromScrollback⟩ viewportSize
  -- If the line wrapped and there is space below it, stick to its start.
  let proposedTop :=
    if proposedTop = proposedTopFromScrollback ∧ maxRow < proposedViewFromTop.bottomInclusive ∧ dx < 0 ∧
        proposedTop > 0 ∧ r.wasWrapForced (proposedTop - 1) then proposedTop - 1
    else proposedTop
  if maxRow > proposedViewFromTop.bottomInclusive then proposedTopFromLastLine else proposedTop

def topWithin (bufferHeight proposedTop : Int) : Int :=
  let proposedTop := max 0 proposedTop
  let proposedBottom := (Viewport.fromDimensions ⟨0, proposedTop⟩ viewportSize).bottomExclusive
  if proposedBottom > bufferHeight then proposedTop - (proposedBottom - bufferHeight) else proposedTop

def newBufferHeight (height : Int) : Int :=
  Viewport.clampBetween (height + t.scrollbackLines) 0 shrtMax

variable (reflowed : Option Reflowed)

def resizeMain (t : TerminalCore) : TerminalCore :=
  match reflowed with
  | none => t
  | some r =>
    let bufferSize : Size := ⟨viewportSize.width, t.newBufferHeight viewportSize.height⟩
    let dx := viewportSize.width - t.getMutableViewport.dimensions.width
    let mutableViewport :=
      Viewport.fromDimensions ⟨0, topWithin viewportSize bufferSize.height (proposedTop viewportSize dx r)⟩ viewportSize
    let newVisibleTop := max (min r.visibleViewportTop mutableViewport.top) 0
    { t with
      mainBuffer := { size := bufferSizeFor bufferSize, cursor := r.cursor, text := r.text }
      mutableViewport
      scrollOffset := if t.scrollOffset = 0 then 0 else mutableViewport.top - newVisibleTop }

def resizeAlt (text : Text) (t : TerminalCore) : TerminalCore :=
  let size := bufferSizeFor viewportSize
  if size.width ≥ 2 ^ 16 ∨ size.height ≥ 2 ^ 16 then { t with deferredResize := some viewportSize }
  else
    { t.modifyActiveBuffer fun buffer => { buffer with size, text } with
      deferredResize := some viewportSize
      altBufferSize := viewportSize }

def userResize (altText : Text) (t : TerminalCore) : TerminalCore :=
  if viewportSize = t.getMutableViewport.dimensions then t
  else if t.inAltBuffer then t.resizeAlt viewportSize altText
  else t.resizeMain viewportSize reflowed

/-! ## The alternate buffer -/

def clearSelection : TerminalCore :=
  { t with
    selection := none
    selectionMode := .none
    selectionEndpoint := {}
    anchorInactiveSelectionEndpoint := false }

def useAlternateScreenBuffer : TerminalCore :=
  let altBufferSize := t.mutableViewport.dimensions
  { t.clearSelection with
    altBufferSize
    altBuffer := some {
      size := bufferSizeFor altBufferSize
      cursor := pointUp t.mutableViewport.top t.mainBuffer.cursor
      text := .blank } }

def useMainScreenBuffer (t : TerminalCore) : TerminalCore :=
  match t.altBuffer with
  | none => t
  | some alt =>
    let cursor := { alt.cursor with y := alt.cursor.y + t.mutableViewport.top }
    let t := { t.clearSelection with altBuffer := none, mainBuffer.cursor := cursor }
    match t.deferredResize with
    | some size => { t.userResize size reflowed .blank with deferredResize := none }
    | none => t

/-! ## Marks -/

def addMark (mark : ScrollMark) (start endPos : Point) (fromUi : Bool) (t : TerminalCore) : TerminalCore :=
  if t.inAltBuffer then t
  else
    let m := { mark with start, endPos }
    { t with scrollMarks := if fromUi then m :: t.scrollMarks else t.scrollMarks ++ [m] }

def modifyLastMark (f : ScrollMark → ScrollMark) (t : TerminalCore) : Option TerminalCore :=
  t.scrollMarks.getLast?.map fun m => { t with scrollMarks := t.scrollMarks.dropLast ++ [f m] }

def markPrompt (mark : ScrollMark) (t : TerminalCore) : TerminalCore :=
  let cursorPos := t.activeBuffer.cursor
  let t := t.addMark mark cursorPos cursorPos false
  if mark.category = .prompt then { t with currentPromptState := .prompt } else t

/-- There is a mark in the right state, or a new one at the cursor. -/
def ensureMark (state : PromptState) (t : TerminalCore) : TerminalCore :=
  if t.currentPromptState = state ∧ t.scrollMarks.length > 0 then t
  else t.addMark { category := .prompt } t.activeBuffer.cursor t.activeBuffer.cursor false

def markCommandStart : Option TerminalCore := do
  let cursorPos := t.activeBuffer.cursor
  let t ← (t.ensureMark .prompt).modifyLastMark fun m => { m with endPos := cursorPos }
  return { t with currentPromptState := .command }

def markOutputStart : Option TerminalCore := do
  let cursorPos := t.activeBuffer.cursor
  let t ← (t.ensureMark .command).modifyLastMark fun m => { m with commandEnd := some cursorPos }
  return { t with currentPromptState := .output }

def finishCategory : Option Nat → MarkCategory
  | none => .prompt
  | some 0 => .success
  | some (_ + 1) => .error

def markCommandFinish (error : Option Nat) (t : TerminalCore) : Option TerminalCore := do
  let cursorPos := t.activeBuffer.cursor
  let t ←
    if t.currentPromptState = .output ∧ t.scrollMarks.length > 0 then some t
    else
      (t.addMark { category := .prompt } cursorPos cursorPos false).modifyLastMark fun m =>
        { m with commandEnd := some cursorPos }
  let t ← t.modifyLastMark fun m => { m with outputEnd := some cursorPos, category := finishCategory error }
  return { t with currentPromptState := .none }

/-- Removes what intersects the selection, or else the cursor. -/
def clearMark : TerminalCore :=
  let start := (t.selection.map SelectionAnchors.start).getD t.activeBuffer.cursor
  let endPos := (t.selection.map SelectionAnchors.endPos).getD t.activeBuffer.cursor
  { t with
    scrollMarks := t.scrollMarks.filter fun m =>
      ¬(start ≤ m.start ∧ m.start ≤ endPos ∨ start ≤ m.endPos ∧ m.endPos ≤ endPos) }

def clearAllMarks : TerminalCore := { t with scrollMarks := [] }

end TerminalCore

end Terminal.Core
