import Terminal.Parser.StateMachine

/-!
# The input engine (`InputStateMachineEngine.cpp`)

Sequences of a terminal become key and mouse events. The keyboard layout and the clock are
parameters.
-/

namespace Terminal.Parser

/-! ## Events -/

structure KeyEvent where
  keyDown : Bool := false
  repeatCount : BitVec 16 := 0
  virtualKeyCode : BitVec 16 := 0
  virtualScanCode : BitVec 16 := 0
  charData : Wchar := 0
  activeModifierKeys : BitVec 32 := 0
deriving DecidableEq, Repr

structure MouseEvent where
  position : Int × Int
  buttonState : BitVec 32
  controlKeyState : BitVec 32
  eventFlags : BitVec 32
deriving DecidableEq, Repr

inductive InputEvent
  | key (event : KeyEvent)
  | mouse (event : MouseEvent)
deriving DecidableEq, Repr

inductive Interaction
  | writeInput (events : List InputEvent)
  | writeCtrlKey (event : KeyEvent)
  | writeString (string : List Wchar)
  | windowManipulation (function : Int) (parameter1 parameter2 : VTParameter)
  | moveCursor (row col : Int)
  | focusChanged (focused : Bool)
deriving DecidableEq, Repr

def LEFT_ALT_PRESSED : BitVec 32 := 0x0002
def LEFT_CTRL_PRESSED : BitVec 32 := 0x0008
def SHIFT_PRESSED : BitVec 32 := 0x0010
def ENHANCED_KEY : BitVec 32 := 0x0100

def FROM_LEFT_1ST_BUTTON_PRESSED : BitVec 32 := 0x0001
def RIGHTMOST_BUTTON_PRESSED : BitVec 32 := 0x0002
def FROM_LEFT_2ND_BUTTON_PRESSED : BitVec 32 := 0x0004

def MOUSE_MOVED : BitVec 32 := 0x0001
def DOUBLE_CLICK : BitVec 32 := 0x0002
def MOUSE_WHEELED : BitVec 32 := 0x0004

def SCROLL_DELTA_BACKWARD : BitVec 32 := 0xFF800000
def SCROLL_DELTA_FORWARD : BitVec 32 := 0x00800000

def VK_BACK : BitVec 16 := 0x08
def VK_TAB : BitVec 16 := 0x09
def VK_SHIFT : BitVec 16 := 0x10
def VK_CONTROL : BitVec 16 := 0x11
def VK_MENU : BitVec 16 := 0x12
def VK_ESCAPE : BitVec 16 := 0x1B
def VK_PRIOR : BitVec 16 := 0x21
def VK_NEXT : BitVec 16 := 0x22
def VK_END : BitVec 16 := 0x23
def VK_HOME : BitVec 16 := 0x24
def VK_LEFT : BitVec 16 := 0x25
def VK_UP : BitVec 16 := 0x26
def VK_RIGHT : BitVec 16 := 0x27
def VK_DOWN : BitVec 16 := 0x28
def VK_INSERT : BitVec 16 := 0x2D
def VK_DELETE : BitVec 16 := 0x2E

def VK_F (n : Nat) : BitVec 16 := BitVec.ofNat 16 (0x6F + n)

def isAnyFlagSet (value flags : BitVec 32) : Bool := value &&& flags != 0

def flagIf (condition : Bool) (flag : BitVec 32) : BitVec 32 := if condition then flag else 0

/-- `VkKeyScanW` and the two directions of `MapVirtualKeyW`. -/
structure Keyboard where
  vkKeyScan : Wchar → BitVec 16
  toScanCode : BitVec 16 → BitVec 16
  toChar : BitVec 16 → Wchar

def plainKeyboard : Keyboard := ⟨fun wch => wch, fun vkey => vkey, fun vkey => vkey⟩

/-! ## Keys -/

section

variable (keyboard : Keyboard)

/-- `_GenerateKeyFromChar`. A byte is never `-1`, so it never fails. -/
def generateKeyFromChar (wch : Wchar) : Option (BitVec 16 × BitVec 32) :=
  let keyscan := keyboard.vkKeyScan wch
  let key : BitVec 16 := (keyscan.setWidth 8).setWidth 16
  let keyscanModifiers : BitVec 16 := keyscan >>> 8
  if key = -1 ∧ keyscanModifiers = -1 then none
  else some (key, flagIf (keyscanModifiers &&& 1 != 0) SHIFT_PRESSED |||
    flagIf (keyscanModifiers &&& 2 != 0) LEFT_CTRL_PRESSED ||| flagIf (keyscanModifiers &&& 4 != 0) LEFT_ALT_PRESSED)

def modifierKey (keyDown : Bool) (vkey : BitVec 16) (currentModifiers : BitVec 32) : InputEvent :=
  .key {
    keyDown := keyDown, repeatCount := 1, virtualKeyCode := vkey, virtualScanCode := keyboard.toScanCode vkey
    charData := 0, activeModifierKeys := currentModifiers }

def singleKeypress (wch : Wchar) (vkey : BitVec 16) (modifierState : BitVec 32) : List InputEvent :=
  let event : KeyEvent := {
    keyDown := true, repeatCount := 1, virtualKeyCode := vkey, virtualScanCode := keyboard.toScanCode vkey
    charData := wch, activeModifierKeys := modifierState }
  [.key event, .key { event with keyDown := false }]

def generateWrappedSequence (wch : Wchar) (vkey : BitVec 16) (modifierState : BitVec 32) : List InputEvent :=
  let shift := isAnyFlagSet modifierState SHIFT_PRESSED
  let ctrl := isAnyFlagSet modifierState LEFT_CTRL_PRESSED
  let alt := isAnyFlagSet modifierState LEFT_ALT_PRESSED
  let withShift := flagIf shift SHIFT_PRESSED
  let withAlt := withShift ||| flagIf alt LEFT_ALT_PRESSED
  let withCtrl := withAlt ||| flagIf ctrl LEFT_CTRL_PRESSED
  (if shift then [modifierKey keyboard true VK_SHIFT withShift] else []) ++
    (if alt then [modifierKey keyboard true VK_MENU withAlt] else []) ++
    (if ctrl then [modifierKey keyboard true VK_CONTROL withCtrl] else []) ++
    singleKeypress keyboard wch vkey modifierState ++
    (if ctrl then [modifierKey keyboard false VK_CONTROL withAlt] else []) ++
    (if alt then [modifierKey keyboard false VK_MENU withShift] else []) ++
    (if shift then [modifierKey keyboard false VK_SHIFT 0] else [])

def writeSingleKey (wch : Wchar) (vkey : BitVec 16) (modifierState : BitVec 32) : List Interaction :=
  [.writeInput (generateWrappedSequence keyboard wch vkey modifierState)]

def writeVirtualKey (vkey : BitVec 16) (modifierState : BitVec 32) : List Interaction :=
  writeSingleKey keyboard (keyboard.toChar vkey) vkey modifierState

def actionPrintKey (wch : Wchar) : List Interaction :=
  match generateKeyFromChar keyboard wch with
  | none => []
  | some (vkey, modifierState) => writeSingleKey keyboard wch vkey modifierState

def controlKey (wch : Wchar) : Option (Wchar × BitVec 16 × BitVec 32 × Bool) :=
  match wch.toNat with
  | 0x08 => (generateKeyFromChar keyboard 0x7F).map fun (vkey, _) => (0x7F, vkey, 0, true)
  | 0x0D => (generateKeyFromChar keyboard wch).map fun (vkey, _) => (wch, vkey, 0, false)
  | 0x1B => some (wch, VK_ESCAPE, 0, false)
  | 0x09 => (generateKeyFromChar keyboard wch).map fun (vkey, modifiers) => (wch, vkey, modifiers, false)
  | _ => (generateKeyFromChar keyboard wch).map fun (vkey, modifiers) => (wch, vkey, modifiers, true)

/-- `WriteCtrlKey` always succeeds, so both events of Ctrl+C are written. -/
def doControlCharacter (wch : Wchar) (writeAlt : Bool) : List Interaction :=
  if wch = 0x03 ∧ !writeAlt then
    let keyDown : KeyEvent := {
      keyDown := true, repeatCount := 1, virtualKeyCode := 0x43, charData := 0x03
      activeModifierKeys := LEFT_CTRL_PRESSED }
    [.writeCtrlKey keyDown, .writeCtrlKey { keyDown with keyDown := false }]
  else if wch.toNat < 0x20 then
    match controlKey keyboard wch with
    | none => []
    | some (actualChar, vkey, modifierState, writeCtrl) =>
      writeSingleKey keyboard actualChar vkey
        (modifierState ||| flagIf writeCtrl LEFT_CTRL_PRESSED ||| flagIf writeAlt LEFT_ALT_PRESSED)
  else if wch = 0x7F then writeSingleKey keyboard 0x08 VK_BACK (flagIf writeAlt LEFT_ALT_PRESSED)
  else actionPrintKey keyboard wch

/-- The identifier of an escape sequence is its final character. -/
def escDispatchKey (id : VTID) : List Interaction :=
  let wch : Wchar := id.setWidth 16
  if wch = 0x7F then doControlCharacter keyboard wch true
  else match generateKeyFromChar keyboard wch with
    | none => []
    | some (vkey, modifierState) => writeSingleKey keyboard wch vkey (modifierState ||| LEFT_ALT_PRESSED)

end

/-! ## Control sequences -/

namespace CsiActionCodes

def arrowUp := VTID.fromString ['A']
def arrowDown := VTID.fromString ['B']
def arrowRight := VTID.fromString ['C']
def arrowLeft := VTID.fromString ['D']
def home := VTID.fromString ['H']
def «end» := VTID.fromString ['F']
def focusIn := VTID.fromString ['I']
def focusOut := VTID.fromString ['O']
def mouseDown := VTID.fromString ['<', 'M']
def mouseUp := VTID.fromString ['<', 'm']
def generic := VTID.fromString ['~']
def csiF1 := VTID.fromString ['P']
def csiF2 := VTID.fromString ['Q']
def csiF3 := VTID.fromString ['R']
def csiF4 := VTID.fromString ['S']
def windowManipulation := VTID.fromString ['t']
def cursorBackTab := VTID.fromString ['Z']
def win32KeyboardInput := VTID.fromString ['_']

end CsiActionCodes

open CsiActionCodes

def csiMap : List (VTID × BitVec 16) :=
  [(arrowUp, VK_UP), (arrowDown, VK_DOWN), (arrowRight, VK_RIGHT), (arrowLeft, VK_LEFT), (home, VK_HOME),
    («end», VK_END), (csiF1, VK_F 1), (csiF2, VK_F 2), (csiF3, VK_F 3), (csiF4, VK_F 4)]

def genericMap : List (Int × BitVec 16) :=
  [(1, VK_HOME), (2, VK_INSERT), (3, VK_DELETE), (4, VK_END), (5, VK_PRIOR), (6, VK_NEXT), (15, VK_F 5), (17, VK_F 6),
    (18, VK_F 7), (19, VK_F 8), (20, VK_F 9), (21, VK_F 10), (23, VK_F 11), (24, VK_F 12)]

def ss3Map : List (Wchar × BitVec 16) :=
  [(0x41, VK_UP), (0x42, VK_DOWN), (0x43, VK_RIGHT), (0x44, VK_LEFT), (0x46, VK_END), (0x48, VK_HOME), (0x50, VK_F 1),
    (0x51, VK_F 2), (0x52, VK_F 3), (0x53, VK_F 4)]

def getModifier (modifierParam : Nat) : BitVec 32 :=
  let vtParam := modifierParam - 1
  flagIf (modifierParam > 0) ENHANCED_KEY ||| flagIf (vtParam &&& 1 != 0) SHIFT_PRESSED |||
    flagIf (vtParam &&& 2 != 0) LEFT_ALT_PRESSED ||| flagIf (vtParam &&& 4 != 0) LEFT_CTRL_PRESSED

def cursorKeysModifierState (parameters : VTParameters) (id : VTID) : BitVec 32 :=
  getModifier (parameters.at' 1).toVTInt.toNat ||| flagIf (id < csiF1 || id > csiF4) ENHANCED_KEY

def genericKeysModifierState (parameters : VTParameters) : BitVec 32 :=
  getModifier (parameters.at' 1).toVTInt.toNat ||| flagIf ((parameters.at' 0).toEnum ≤ 6) ENHANCED_KEY

def sgrMouseModifierState (modifierParam : Nat) : BitVec 32 :=
  flagIf (modifierParam &&& 4 != 0) SHIFT_PRESSED ||| flagIf (modifierParam &&& 8 != 0) LEFT_ALT_PRESSED |||
    flagIf (modifierParam &&& 16 != 0) LEFT_CTRL_PRESSED

/-- `base::saturated_cast` to a type with the given limits. -/
def saturatedCast (lowest highest value : Int) : Int :=
  if value < lowest then lowest else if value > highest then highest else value

def saturatedWord (value : Int) : BitVec 16 := BitVec.ofInt 16 (saturatedCast 0 65535 value)

def generateWin32Key (parameters : VTParameters) : KeyEvent where
  virtualKeyCode := saturatedWord ((parameters.at' 0).valueOr 0)
  virtualScanCode := saturatedWord ((parameters.at' 1).valueOr 0)
  charData := saturatedWord ((parameters.at' 2).valueOr 0)
  keyDown := (parameters.at' 3).valueOr 0 ≠ 0
  activeModifierKeys := BitVec.ofInt 32 (saturatedCast 0 4294967295 ((parameters.at' 4).valueOr 0))
  repeatCount := saturatedWord ((parameters.at' 5).valueOr 1)

structure InputEngine where
  lookingForDSR : Bool := false
  mouseButtonState : BitVec 32 := 0
  doubleClickTime : Int
  lastMouseClickPos : Option (Int × Int) := none
  lastMouseClickTime : Option Int := none
  lastMouseClickButton : Option Nat := none
deriving DecidableEq, Repr

namespace InputEngine

def buttonFlags (buttonID : Nat) : Option (BitVec 32 × BitVec 32 × BitVec 32) :=
  match buttonID with
  | 0 => some (FROM_LEFT_1ST_BUTTON_PRESSED, 0, 0)
  | 1 => some (FROM_LEFT_2ND_BUTTON_PRESSED, 0, 0)
  | 2 => some (RIGHTMOST_BUTTON_PRESSED, 0, 0)
  | 3 => some (0, 0, 0)
  | 4 => some (0, SCROLL_DELTA_FORWARD, MOUSE_WHEELED)
  | 5 => some (0, SCROLL_DELTA_BACKWARD, MOUSE_WHEELED)
  | _ => none

def trackClick (now : Int) (buttonID : Nat) (uiPos : Int × Int) (e : InputEngine) : BitVec 32 × InputEngine :=
  if e.lastMouseClickPos = some uiPos ∧ (match e.lastMouseClickTime with
        | some time => decide (now - time < e.doubleClickTime)
        | none => false) = true ∧ e.lastMouseClickButton = some buttonID then
    (DOUBLE_CLICK, { e with lastMouseClickPos := none, lastMouseClickTime := none, lastMouseClickButton := none })
  else if buttonID = 0 ∨ buttonID = 2 ∨ buttonID = 1 then
    (0, { e with
      lastMouseClickPos := some uiPos, lastMouseClickTime := some now, lastMouseClickButton := some buttonID })
  else (0, e)

def updateSGRMouseButtonState (now : Int) (id : VTID) (sgrEncoding : Nat) (uiPos : Int × Int) (e : InputEngine) :
    Option (BitVec 32 × BitVec 32) × InputEngine :=
  let buttonID := (sgrEncoding &&& 0x3) ||| ((sgrEncoding &&& 0xC0) >>> 4)
  match buttonFlags buttonID with
  | none => (none, e)
  | some (buttonFlag, wheel, wheeled) =>
    let buttonState := e.mouseButtonState ||| wheel
    let finish (buttonState eventFlags : BitVec 32) (e : InputEngine) :=
      let eventFlags := eventFlags ||| flagIf (sgrEncoding &&& 32 != 0) MOUSE_MOVED
      (some (buttonState, eventFlags), { e with mouseButtonState := buttonState &&& 0xFFFF })
    if id = mouseDown then
      let (click, e) := trackClick now buttonID uiPos e
      finish (buttonState ||| buttonFlag) (wheeled ||| click) e
    else if id = mouseUp then finish (buttonState &&& ~~~buttonFlag) wheeled e
    else (none, e)

def writeMouseEvent (uiPos : Int × Int) (buttonState controlKeyState eventFlags : BitVec 32) : Interaction :=
  .writeInput [.mouse {
    position := (saturatedCast (-32768) 32767 uiPos.1, saturatedCast (-32768) 32767 uiPos.2)
    buttonState := buttonState, controlKeyState := controlKeyState, eventFlags := eventFlags }]

section

variable (keyboard : Keyboard)

def cursorKey (id : VTID) (parameters : VTParameters) : List Interaction :=
  match csiMap.lookup id with
  | none => []
  | some vkey => writeVirtualKey keyboard vkey (cursorKeysModifierState parameters id)

def csiDispatch (now : Int) (id : VTID) (parameters : VTParameters) (e : InputEngine) :
    List Interaction × InputEngine :=
  if id = mouseDown ∨ id = mouseUp then
    let firstParameter := ((parameters.at' 0).valueOr 0).toNat
    let uiPos := ((parameters.at' 1).toVTInt - 1, (parameters.at' 2).toVTInt - 1)
    match e.updateSGRMouseButtonState now id firstParameter uiPos with
    | (none, e) => ([], e)
    | (some (buttonState, eventFlags), e) =>
      ([writeMouseEvent uiPos buttonState (sgrMouseModifierState firstParameter) eventFlags], e)
  else if id = csiF3 ∧ e.lookingForDSR then
    ([.moveCursor (parameters.at' 0).toVTInt (parameters.at' 1).toVTInt], { e with lookingForDSR := false })
  else if (csiMap.lookup id).isSome then (cursorKey keyboard id parameters, e)
  else if id = generic then
    match genericMap.lookup (parameters.at' 0).toEnum with
    | none => ([], e)
    | some vkey => (writeVirtualKey keyboard vkey (genericKeysModifierState parameters), e)
  else if id = cursorBackTab then (writeVirtualKey keyboard VK_TAB SHIFT_PRESSED, e)
  else if id = windowManipulation then
    ([.windowManipulation (parameters.at' 0).toEnum (parameters.at' 1) (parameters.at' 2)], e)
  else if id = focusIn then ([.focusChanged true], e)
  else if id = focusOut then ([.focusChanged false], e)
  else if id = win32KeyboardInput then ([.writeCtrlKey (generateWin32Key parameters)], e)
  else ([], e)

end

end InputEngine

/-! ## The engine of the state machine -/

structure InputOptions where
  /-- `IsVtInputEnabled`: the client wants the sequences themselves. -/
  vtInputEnabled : Bool
  flushCallback : Bool
deriving DecidableEq, Repr

/-- The calls answered by flushing the sequence to the input queue. -/
def InputOptions.passes (options : InputOptions) (c : Call) : Bool :=
  options.vtInputEnabled && options.flushCallback &&
    match c with
    | .executeFromEscape _ | .escDispatch _ | .ss3Dispatch _ _ => true
    | .csiDispatch id _ => id ≠ win32KeyboardInput && id ≠ focusIn && id ≠ focusOut
    | _ => false

def inputEngine (options : InputOptions) (answers : List Call → Bool) : Engine where
  dispatch calls := { success := answers calls, handler := none }
  flushes c _ := options.passes c
  inject _ m := m

section

variable (keyboard : Keyboard) (options : InputOptions)

def InputEngine.handle (now : Int) (c : Call) (e : InputEngine) : List Interaction × InputEngine :=
  if options.passes c then ([], e)
  else match c with
    | .execute wch => (doControlCharacter keyboard wch false, e)
    | .executeFromEscape wch => (doControlCharacter keyboard wch true, e)
    | .print wch => (actionPrintKey keyboard wch, e)
    | .printString string => (if string = [] then [] else [.writeString string], e)
    | .passThroughString string =>
      (if string = [] then []
        else if options.vtInputEnabled then
          [.writeInput (string.map fun wch => .key { keyDown := true, repeatCount := 1, charData := wch })]
        else [.writeString string], e)
    | .escDispatch id => (escDispatchKey keyboard id, e)
    | .csiDispatch id parameters => e.csiDispatch keyboard now id parameters
    | .ss3Dispatch wch _ =>
      (match ss3Map.lookup wch with
        | none => []
        | some vkey => writeVirtualKey keyboard vkey 0, e)
    -- not used for input
    | .vt52EscDispatch _ _ | .dcsDispatch _ _ | .oscDispatch _ _ _ | .stringHandler _ | .clear => ([], e)

/-- What the engine does about calls; the `n`-th comes at `clock n`. -/
def InputEngine.handleAll (clock : Nat → Int) : List Call → Nat → InputEngine → List Interaction × InputEngine
  | [], _, e => ([], e)
  | c :: calls, n, e =>
    let (done, e) := e.handle keyboard options (clock n) c
    let (more, e) := handleAll clock calls (n + 1) e
    (done ++ more, e)

end

end Terminal.Parser
