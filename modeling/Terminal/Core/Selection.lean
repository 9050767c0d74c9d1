import Terminal.Core.State
import Terminal.Lib.Steps

/-!
# The selection (`TerminalSelection.cpp`)

Text is selected between two anchors; the pivot stays selected when the selection is extended.
Here is also everything that can happen to the terminal.
-/

namespace Terminal.Core

open Terminal.Types

variable (direction : SelectionDirection) (t : TerminalCore)

namespace TerminalCore

variable (viewportPos : Point)

def convertToBufferCell (t : TerminalCore) : Point :=
  t.activeBuffer.getSize.clamp ⟨viewportPos.x, t.visibleStartIndex + viewportPos.y⟩

def scrollToPoint (pos : Point) (t : TerminalCore) : TerminalCore :=
  let visibleViewport := t.getVisibleViewport
  if visibleViewport.Contains pos then t
  else if visibleViewport.top - pos.y > 0 then { t with scrollOffset := t.scrollOffset + (visibleViewport.top - pos.y) }
  else { t with scrollOffset := t.scrollOffset - (pos.y - visibleViewport.bottomInclusive) }

/-! ## The mouse -/

def pivotSelection (targetPos pivot : Point) (t : TerminalCore) : (Point × Point) × Bool :=
  if t.activeBuffer.getSize.compareInBounds targetPos pivot ≤ 0 then ((targetPos, pivot), true)
  else ((pivot, targetPos), false)

def expandSelectionAnchors (anchors : Point × Point) (t : TerminalCore) : Point × Point :=
  let bufferSize := t.activeBuffer.getSize
  match t.multiClickSelectionMode with
  | .line => (⟨bufferSize.left, anchors.1.y⟩, ⟨bufferSize.rightInclusive, anchors.2.y⟩)
  | .word => (t.activeBuffer.getWordStart anchors.1, t.activeBuffer.getWordEnd anchors.2)
  | _ => anchors

def selectTo (textBufferPos : Point) (newExpansionMode : Option SelectionExpansion) (s : SelectionAnchors)
    (t : TerminalCore) : SelectionAnchors :=
  let (anchors, targetStart) := t.pivotSelection textBufferPos s.pivot
  let expandedAnchors := t.expandSelectionAnchors anchors
  -- A shift-click only expands the target side; the other anchor becomes the pivot.
  if newExpansionMode.isSome then
    if targetStart then { s with start := expandedAnchors.1, endPos := s.pivot }
    else { s with start := s.pivot, endPos := expandedAnchors.2 }
  else { s with start := expandedAnchors.1, endPos := expandedAnchors.2 }

def setSelectionEnd (newExpansionMode : Option SelectionExpansion) (t : TerminalCore) :
    TerminalCore :=
  match t.selection with
  | none => t
  | some s =>
    let t := { t with multiClickSelectionMode := newExpansionMode.getD t.multiClickSelectionMode }
    { t with
      selection := some (t.selectTo (t.convertToBufferCell viewportPos) newExpansionMode s)
      selectionMode := .mouse }

def multiClickSelection (expansionMode : SelectionExpansion) (t : TerminalCore) : TerminalCore :=
  let t := { t with
             selection := some { pivot := t.convertToBufferCell viewportPos }
             multiClickSelectionMode := expansionMode }
  let t := t.setSelectionEnd viewportPos none
  -- for future shift+clicks
  { t with selection := t.selection.map fun s => { s with pivot := s.start } }

def setSelectionAnchor (t : TerminalCore) : TerminalCore :=
  let t := { t with
             selection := some { pivot := t.convertToBufferCell viewportPos }
             multiClickSelectionMode := .char }
  let t := t.setSelectionEnd viewportPos none
  { t with selection := t.selection.map fun s => { s with start := s.pivot } }

def setBlockSelection (isEnabled : Bool) (t : TerminalCore) : TerminalCore := { t with blockSelection := isEnabled }

/-! ## Mark mode -/

def toggleMarkMode : TerminalCore :=
  if t.selectionMode = .mark then t.clearSelection
  else
    match t.selection with
    | none =>
      let cursorPos := t.activeBuffer.cursor
      { { t with
          selection := some { start := cursorPos, endPos := cursorPos, pivot := cursorPos }
          blockSelection := false
          selectionEndpoint := { start := true, endPos := true } }.scrollToPoint cursorPos with
        selectionMode := .mark }
    | some s =>
      let selectionEndpoint : SelectionEndpoint :=
        if ¬t.selectionEndpoint.start ∧ ¬t.selectionEndpoint.endPos then { endPos := true } else t.selectionEndpoint
      { { t with selectionEndpoint }.scrollToPoint s.start with selectionMode := .mark }

def switchSelectionEndpoint : TerminalCore :=
  match t.selection with
  | none => t
  | some s =>
    if t.selectionEndpoint.start ∧ t.selectionEndpoint.endPos then
      { t with selectionEndpoint := { endPos := true }, anchorInactiveSelectionEndpoint := true }
    else if t.selectionEndpoint.endPos then
      { t with selectionEndpoint := { start := true }, selection := some { s with pivot := s.endPos } }
    else if t.selectionEndpoint.start then
      { t with selectionEndpoint := { endPos := true }, selection := some { s with pivot := s.start } }
    else t

def expandSelectionToWord : TerminalCore :=
  match t.selection with
  | none => t
  | some s =>
    let start := t.activeBuffer.getWordStart s.start
    { t with
      selection := some { start, pivot := start, endPos := t.activeBuffer.getWordEnd s.endPos }
      selectionEndpoint :=
        if t.selectionEndpoint.start ∧ t.selectionEndpoint.endPos then { endPos := true } else t.selectionEndpoint }

def selectAll : TerminalCore :=
  let bufferSize := t.activeBuffer.getSize
  let endPos : Point := ⟨bufferSize.rightInclusive, t.getMutableViewport.bottomInclusive⟩
  { t with
    selection := some { start := bufferSize.origin, endPos, pivot := endPos }
    selectionMode := .keyboard }.scrollToPoint bufferSize.origin

/-! ## The keyboard -/

def moveUp (rows : Int) (pos : Point) (t : TerminalCore) : Point :=
  let bufferSize := t.activeBuffer.getSize
  if pos.y - rows < bufferSize.top then bufferSize.origin else ⟨pos.x, pos.y - rows⟩

def moveDown (rows : Int) (pos : Point) (t : TerminalCore) : Point :=
  let mutableBottom := t.getMutableViewport.bottomInclusive
  if pos.y + rows > mutableBottom then ⟨t.activeBuffer.getSize.rightInclusive, mutableBottom⟩ else ⟨pos.x, pos.y + rows⟩

def moveByChar (pos : Point) (t : TerminalCore) : Point :=
  match direction with
  | .left => t.activeBuffer.getGlyphStart (t.activeBuffer.getSize.decrementInBounds pos).1
  | .right => t.activeBuffer.getGlyphEnd (t.activeBuffer.getSize.incrementInBounds pos).1
  | .up => t.moveUp 1 pos
  | .down => t.moveDown 1 pos

def moveByWord (pivot pos : Point) (t : TerminalCore) : Point :=
  let buffer := t.activeBuffer
  match direction with
  | .left =>
    -- Moving towards the pivot, it is one more cell.
    if buffer.getSize.compareInBounds pivot pos < 0 then (buffer.getSize.decrementInBounds (buffer.getWordStart pos)).1
    else if buffer.getWordStart pos = pos then buffer.getWordStart (buffer.getSize.decrementInBounds pos).1
    else buffer.getWordStart pos
  | .right =>
    if buffer.getSize.compareInBounds pos pivot < 0 then (buffer.getSize.incrementInBounds (buffer.getWordEnd pos)).1
    else if buffer.getWordEnd pos = pos then buffer.getWordEnd (buffer.getSize.incrementInBounds pos).1
    else buffer.getWordEnd pos
  | .up => buffer.getWordStart (t.moveByChar .up pos)
  | .down => buffer.getWordEnd (t.moveByChar .down pos)

def moveByViewport (pos : Point) (t : TerminalCore) : Point :=
  let bufferSize := t.activeBuffer.getSize
  match direction with
  | .left => ⟨bufferSize.left, pos.y⟩
  | .right => ⟨bufferSize.rightInclusive, pos.y⟩
  | .up => t.moveUp t.getMutableViewport.height pos
  | .down => t.moveDown t.getMutableViewport.height pos

def moveByBuffer : Point :=
  let bufferSize := t.activeBuffer.getSize
  match direction with
  | .left | .up => bufferSize.origin
  | .right | .down => ⟨bufferSize.rightInclusive, t.getMutableViewport.bottomInclusive⟩

/-- The switch of the source has no case for lines. -/
def movePos (mode : SelectionExpansion) (pivot pos : Point) (t : TerminalCore) : Point :=
  match mode with
  | .char => t.moveByChar direction pos
  | .word => t.moveByWord direction pivot pos
  | .viewport => t.moveByViewport direction pos
  | .buffer => t.moveByBuffer direction
  | .line => pos

end TerminalCore

def SelectionInteractionMode.maxKeyboard : SelectionInteractionMode → SelectionInteractionMode
  | .none | .mouse | .keyboard => .keyboard
  | .mark => .mark

namespace TerminalCore

def shouldMoveBothEndpoints (shift : Bool) (t : TerminalCore) : Prop :=
  t.selectionMode = .mark ∧ ¬t.anchorInactiveSelectionEndpoint ∧ ¬shift

instance (shift : Bool) (t : TerminalCore) : Decidable (t.shouldMoveBothEndpoints shift) :=
  inferInstanceAs (Decidable (_ ∧ _ ∧ _))

def movingEndpoint (shift : Bool) (s : SelectionAnchors) (t : TerminalCore) : Point :=
  if t.shouldMoveBothEndpoints shift then s.start
  else if s.start = s.pivot then s.endPos
  else if s.endPos = s.pivot then s.start
  else s.endPos

def updateSelection (mode : SelectionExpansion) (shift : Bool) (t : TerminalCore) :
    Option TerminalCore :=
  t.selection.map fun s =>
    let targetPos := t.movePos direction mode s.pivot (t.movingEndpoint shift s)
    let (anchors, targetStart) := t.pivotSelection targetPos s.pivot
    let moved :=
      if t.shouldMoveBothEndpoints shift then
        { t with
          selection := some { start := targetPos, endPos := targetPos, pivot := targetPos }
          selectionEndpoint := { start := true, endPos := true } }
      else
        { t with
          selection := some { s with start := anchors.1, endPos := anchors.2 }
          selectionEndpoint := { start := targetStart, endPos := !targetStart } }
    { moved with selectionMode := t.selectionMode.maxKeyboard }.scrollToPoint targetPos

/-! ## What can happen -/

end TerminalCore

inductive TerminalOp where
  | lineFeed (withReturn : Bool)
  /-- A cursor move and other output, which leaves any text. -/
  | output (cursor : Point) (text : Text)
  | setViewportPosition (position : Point)
  | userScrollViewport (viewTop : Int)
  | userResize (viewportSize : Size) (reflowed : Option Reflowed) (altText : Text)
  | useAlternateScreenBuffer
  | useMainScreenBuffer (reflowed : Option Reflowed)
  | setSelectionAnchor (viewportPos : Point)
  | setSelectionEnd (viewportPos : Point) (newExpansionMode : Option SelectionExpansion)
  | multiClickSelection (viewportPos : Point) (expansionMode : SelectionExpansion)
  | setBlockSelection (isEnabled : Bool)
  | updateSelection (direction : SelectionDirection) (mode : SelectionExpansion) (shift : Bool)
  | toggleMarkMode
  | switchSelectionEndpoint
  | expandSelectionToWord
  | selectAll
  | clearSelection
  | markPrompt (mark : ScrollMark)
  | markCommandStart
  | markOutputStart
  | markCommandFinish (error : Option Nat)
  | addMark (mark : ScrollMark) (start endPos : Point) (fromUi : Bool)
  | clearMark
  | clearAllMarks

namespace TerminalCore

/-- No result is an access to a selection or a mark that is not there. -/
def step : TerminalOp → Option TerminalCore
  | .lineFeed withReturn => some (t.lineFeed withReturn)
  | .output cursor text => some (t.modifyActiveBuffer fun buffer => { buffer with cursor, text })
  | .setViewportPosition position => some (t.setViewportPosition position)
  | .userScrollViewport viewTop => some (t.userScrollViewport viewTop)
  | .userResize viewportSize reflowed altText => some (t.userResize viewportSize reflowed altText)
  | .useAlternateScreenBuffer => some t.useAlternateScreenBuffer
  | .useMainScreenBuffer reflowed => some (t.useMainScreenBuffer reflowed)
  | .setSelectionAnchor viewportPos => some (t.setSelectionAnchor viewportPos)
  | .setSelectionEnd viewportPos newExpansionMode => some (t.setSelectionEnd viewportPos newExpansionMode)
  | .multiClickSelection viewportPos expansionMode => some (t.multiClickSelection viewportPos expansionMode)
  | .setBlockSelection isEnabled => some (t.setBlockSelection isEnabled)
  | .updateSelection direction mode shift => t.updateSelection direction mode shift
  | .toggleMarkMode => some t.toggleMarkMode
  | .switchSelectionEndpoint => some t.switchSelectionEndpoint
  | .expandSelectionToWord => some t.expandSelectionToWord
  | .selectAll => some t.selectAll
  | .clearSelection => some t.clearSelection
  | .markPrompt mark => some (t.markPrompt mark)
  | .markCommandStart => t.markCommandStart
  | .markOutputStart => t.markOutputStart
  | .markCommandFinish error => t.markCommandFinish error
  | .addMark mark start endPos fromUi => some (t.addMark mark start endPos fromUi)
  | .clearMark => some t.clearMark
  | .clearAllMarks => some t.clearAllMarks

def run (ops : List TerminalOp) : Option TerminalCore := Steps.run step t ops

end TerminalCore

end Terminal.Core
