import Terminal.Parser.InputMachine

/-!
# Mouse input (`mouseInput.cpp`)

Mouse messages of the window become sequences for the application.
-/

namespace Terminal.Input

open Terminal.Parser

/-! ## Messages -/

inductive WindowMessage
  | lButtonDown | lButtonUp | lButtonDblClk
  | mButtonDown | mButtonUp | mButtonDblClk
  | rButtonDown | rButtonUp | rButtonDblClk
  | mouseMove
  | mouseWheel | mouseHWheel
  | other (value : Nat)
deriving DecidableEq, Repr

structure MouseButtonState where
  isLeftButtonDown : Bool := false
  isMiddleButtonDown : Bool := false
  isRightButtonDown : Bool := false
deriving DecidableEq, Repr

structure MouseMessage where
  position : Int × Int
  button : WindowMessage
  modifierKeyState : BitVec 16 := 0
  delta : Int := 0
  state : MouseButtonState := {}
deriving DecidableEq, Repr

def isButtonMsg : WindowMessage → Bool
  | .mouseMove | .other _ => false
  | _ => true

def isHoverMsg : WindowMessage → Bool
  | .mouseMove => true
  | _ => false

def isWheelMsg : WindowMessage → Bool
  | .mouseWheel | .mouseHWheel => true
  | _ => false

def isButtonDown : WindowMessage → Bool
  | .lButtonDblClk | .lButtonDown | .rButtonDown | .rButtonDblClk | .mButtonDown | .mButtonDblClk => true
  | .mouseWheel | .mouseHWheel => true
  | _ => false

/-- `s_GetPressedButton`; a release of the left button is no button. -/
def getPressedButton (state : MouseButtonState) : WindowMessage :=
  if state.isLeftButtonDown then .lButtonDown
  else if state.isMiddleButtonDown then .mButtonDown
  else if state.isRightButtonDown then .rButtonDown
  else .lButtonUp

/-! ## Encodings -/

def SHIFT_BITS : BitVec 16 := 0x0010
def ALT_PRESSED : BitVec 16 := 0x0003
def CTRL_PRESSED : BitVec 16 := 0x000C

def updateFlag (flag : BitVec 32) (set : Bool) (value : BitVec 32) : BitVec 32 :=
  if set then value ||| flag else value &&& ~~~flag

def withModifiers (modifierKeyState : BitVec 16) (xvalue : BitVec 32) : BitVec 32 :=
  updateFlag 0x10 (modifierKeyState &&& CTRL_PRESSED != 0) (updateFlag 0x08 (modifierKeyState &&& ALT_PRESSED != 0)
    (updateFlag 0x04 (modifierKeyState &&& SHIFT_BITS != 0) xvalue))

def wheelEncoding (delta : Int) : BitVec 32 := if delta > 0 then 0x40 else 0x41

def hoverEncoding (isHover : Bool) (xvalue : BitVec 32) : BitVec 32 := if isHover then xvalue + 0x20 else xvalue

def windowsButtonToXEncoding (button : WindowMessage) (isHover : Bool) (modifierKeyState : BitVec 16) (delta : Int) :
    BitVec 32 :=
  withModifiers modifierKeyState (hoverEncoding isHover (match button with
      | .lButtonDblClk | .lButtonDown => 0
      | .lButtonUp | .mButtonUp | .rButtonUp => 3
      | .rButtonDown | .rButtonDblClk => 2
      | .mButtonDown | .mButtonDblClk => 1
      | .mouseWheel | .mouseHWheel => wheelEncoding delta
      | _ => 0))

/-- A release keeps its button; 3 is a move without any. -/
def windowsButtonToSGREncoding (button : WindowMessage) (isHover : Bool) (modifierKeyState : BitVec 16) (delta : Int) :
    BitVec 32 :=
  withModifiers modifierKeyState (hoverEncoding isHover (match button with
      | .lButtonDblClk | .lButtonDown | .lButtonUp => 0
      | .rButtonUp | .rButtonDown | .rButtonDblClk => 2
      | .mButtonUp | .mButtonDown | .mButtonDblClk => 1
      | .mouseMove => 3
      | .mouseWheel | .mouseHWheel => wheelEncoding delta
      | _ => 0))

def formatInt (n : Int) : List Wchar := if n < 0 then 0x2D :: formatNat n.natAbs else formatNat n.toNat

def characterSequence (limit : Int) (message : MouseMessage) (button : WindowMessage) (isHover : Bool) : List Wchar :=
  if message.position.1 ≤ limit ∧ message.position.2 ≤ limit then
    [ESC, 0x5B, 0x4D, (0x20 + windowsButtonToXEncoding button isHover message.modifierKeyState
      message.delta).setWidth 16,
      BitVec.ofInt 16 (message.position.1 + 1 + 32), BitVec.ofInt 16 (message.position.2 + 1 + 32)]
  else []

def generateDefaultSequence := characterSequence 94

def generateUtf8Sequence := characterSequence (32767 - 33)

variable (message : MouseMessage)

def generateSGRSequence (button : WindowMessage) (isDown isHover : Bool) : List Wchar :=
  let xbutton := windowsButtonToSGREncoding button isHover message.modifierKeyState message.delta
  [ESC, 0x5B, 0x3C] ++ formatInt xbutton.toInt ++ [0x3B] ++ formatInt (message.position.1 + 1) ++ [0x3B] ++
    formatInt (message.position.2 + 1) ++ [if isDown then 0x4D else 0x6D]

/-! ## `TerminalInput` -/

inductive InputMode
  | ansi | autoRepeat | keypad | cursorKey | backarrowKey | win32
  | utf8MouseEncoding | sgrMouseEncoding
  | defaultMouseTracking | buttonEventMouseTracking | anyEventMouseTracking
  | focusEvent | alternateScroll
deriving DecidableEq, Repr

/-- The modes and the mouse state; `WM_NULL` is no button yet. -/
structure TerminalInput where
  inputMode : InputMode → Bool := fun mode => mode = .ansi || mode = .autoRepeat
  inAlternateBuffer : Bool := false
  lastPos : Int × Int := (-1, -1)
  lastButton : WindowMessage := .other 0
  accumulatedDelta : Int := 0

namespace TerminalInput

variable (t : TerminalInput)

def forgetMouse : TerminalInput := { t with lastPos := (-1, -1), lastButton := .other 0 }

def isTrackingMode (mode : InputMode) : Bool :=
  mode = .defaultMouseTracking || mode = .buttonEventMouseTracking || mode = .anyEventMouseTracking

def isEncodingMode (mode : InputMode) : Bool := mode = .utf8MouseEncoding || mode = .sgrMouseEncoding

def resetModes (kind : InputMode → Bool) (t : TerminalInput) : TerminalInput :=
  { t with inputMode := fun mode => t.inputMode mode && !kind mode }

/-- Tracking modes exclude each other; an encoding does when it is enabled. -/
def setInputMode (mode : InputMode) (enabled : Bool) (t : TerminalInput) : TerminalInput :=
  let t := if isTrackingMode mode then forgetMouse (resetModes isTrackingMode t) else t
  let t := if isEncodingMode mode && enabled then resetModes isEncodingMode t else t
  { t with inputMode := fun other => if other = mode then enabled else t.inputMode other }

def resetInputModes : TerminalInput :=
  { forgetMouse t with inputMode := fun mode => mode = .ansi || mode = .autoRepeat }

def useAlternateScreenBuffer : TerminalInput := { t with inAlternateBuffer := true }

def useMainScreenBuffer : TerminalInput := { t with inAlternateBuffer := false }

def isTrackingMouseInput : Bool :=
  t.inputMode .defaultMouseTracking || t.inputMode .buttonEventMouseTracking || t.inputMode .anyEventMouseTracking

def shouldSendAlternateScroll (button : WindowMessage) (delta : Int) (t : TerminalInput) : Bool :=
  t.inAlternateBuffer && t.inputMode .alternateScroll && (isWheelMsg button && delta ≠ 0)

def alternateScroll (delta : Int) (t : TerminalInput) : List Wchar :=
  [ESC, if t.inputMode .cursorKey then 0x4F else 0x5B, if delta > 0 then 0x41 else 0x42]

def mouseSequence : List Wchar :=
  let isHover := isHoverMsg message.button
  let realButton := if isHover then getPressedButton message.state else message.button
  if t.inputMode .utf8MouseEncoding then generateUtf8Sequence message realButton isHover
  else if t.inputMode .sgrMouseEncoding then
    -- a move without a button goes by its own name
    generateSGRSequence message (if realButton ≠ .lButtonUp then realButton else message.button)
      (isButtonDown realButton) isHover
  else generateDefaultSequence message realButton isHover

def wantsMessage : Bool :=
  let isHover := isHoverMsg message.button
  let sameCoord := message.position = t.lastPos && t.lastButton = message.button
  let realButton := if isHover then getPressedButton message.state else message.button
  (isButtonMsg message.button && t.isTrackingMouseInput) ||
    (isHover && t.inputMode .buttonEventMouseTracking && (!sameCoord && realButton ≠ .lButtonUp)) ||
    (isHover && t.inputMode .anyEventMouseTracking && !sameCoord)

def deliver : Bool × List Wchar × TerminalInput :=
  if t.shouldSendAlternateScroll message.button message.delta then (true, t.alternateScroll message.delta, t)
  else if t.isTrackingMouseInput && t.wantsMessage message then
    let sequence := t.mouseSequence message
    (!sequence.isEmpty, sequence,
      if t.inputMode .buttonEventMouseTracking || t.inputMode .anyEventMouseTracking then
        { t with lastPos := message.position, lastButton := message.button }
      else t)
  else (false, [], t)

def WHEEL_DELTA : Nat := 120

/-- A change of direction, or a message without delta, starts anew. -/
def matchDelta (delta : Int) (t : TerminalInput) : TerminalInput :=
  if delta.sign ≠ t.accumulatedDelta.sign then { t with accumulatedDelta := 0 } else t

def handleMouse : Bool × List Wchar × TerminalInput :=
  let t := t.matchDelta message.delta
  if isWheelMsg message.button then
    let accumulatedDelta := t.accumulatedDelta + message.delta
    if accumulatedDelta.natAbs < WHEEL_DELTA then
      (t.isTrackingMouseInput || t.shouldSendAlternateScroll message.button message.delta, [],
        { t with accumulatedDelta := accumulatedDelta })
    else deliver message { t with accumulatedDelta := 0 }
  else deliver message t

inductive Reachable : TerminalInput → Prop
  | new : Reachable {}
  | setInputMode {t : TerminalInput} (h : Reachable t) (mode : InputMode) (enabled : Bool) :
      Reachable (t.setInputMode mode enabled)
  | resetInputModes {t : TerminalInput} (h : Reachable t) : Reachable t.resetInputModes
  | useAlternateScreenBuffer {t : TerminalInput} (h : Reachable t) : Reachable t.useAlternateScreenBuffer
  | useMainScreenBuffer {t : TerminalInput} (h : Reachable t) : Reachable t.useMainScreenBuffer
  | handleMouse {t : TerminalInput} (h : Reachable t) (message : MouseMessage) :
      Reachable (t.handleMouse message).2.2

end TerminalInput

end Terminal.Input
